import MerkleTox.Core.Store

/-! # Reads and writes of a node store

The reads of `NodeStore` and the writes that the engine makes through it, on the store
itself and through the overlay.
-/

namespace MerkleTox.Core

open Library Proto

structure SyncRange where
  minRank : Nat
  maxRank : Nat
  deriving DecidableEq, Repr

namespace SyncRange

def includes (range : SyncRange) (rank : Nat) : Bool := range.minRank ≤ rank && rank ≤ range.maxRank

def covers (range : SyncRange) (node : MerkleNode) : Bool := range.includes node.topologicalRank

end SyncRange

/-- A write to a node store. -/
inductive Write
  | putNode (conversationId : ConversationId) (node : MerkleNode) (verified : Bool)
  | markVerified (conversationId : ConversationId) (nodeHash : NodeHash)
  | setHeads (conversationId : ConversationId) (heads : List NodeHash)
  | setAdminHeads (conversationId : ConversationId) (heads : List NodeHash)
  | putWireNode (conversationId : ConversationId) (nodeHash : NodeHash) (wire : WireNode)
  | removeWireNode (conversationId : ConversationId) (nodeHash : NodeHash)

/-- A read of a node store. -/
inductive Read
  | getNode (nodeHash : NodeHash)
  | hasNode (nodeHash : NodeHash)
  | isVerified (nodeHash : NodeHash)
  | hasChildren (nodeHash : NodeHash)
  | getHeads (conversationId : ConversationId)
  | getAdminHeads (conversationId : ConversationId)
  | getNodeCounts (conversationId : ConversationId)
  | getLastSequenceNumber (conversationId : ConversationId) (senderPk : PhysicalDevicePk)
  | getVerifiedNodesByType (conversationId : ConversationId) (nodeType : NodeType)
  | getNodeHashesInRange (conversationId : ConversationId) (range : SyncRange)
  | getSpeculativeNodes (conversationId : ConversationId)
  | getOpaqueNodeHashes (conversationId : ConversationId)

/-- What a read returns; `ranked` nodes come in the order of their ranks. -/
inductive Answer
  | node (node : Option MerkleNode)
  | flag (flag : Bool)
  | heads (heads : List NodeHash)
  | counts (verified speculative : Nat)
  | number (number : Nat)
  | ranked (nodes : List MerkleNode)
  | nodes (nodes : List MerkleNode)
  | hashes (hashes : List NodeHash)

/-- Two answers are the same up to the order that the read leaves open. -/
inductive Answer.Agrees : Answer → Answer → Prop
  | refl (answer : Answer) : Agrees answer answer
  | ranked {nodes nodes' : List MerkleNode} (hperm : nodes.Perm nodes')
      (hranks : nodes.map MerkleNode.topologicalRank = nodes'.map MerkleNode.topologicalRank) :
      Agrees (.ranked nodes) (.ranked nodes')
  | nodes {nodes nodes' : List MerkleNode} (hperm : nodes.Perm nodes') :
      Agrees (.nodes nodes) (.nodes nodes')
  | hashes {hashes hashes' : List NodeHash} (hperm : hashes.Perm hashes') :
      Agrees (.hashes hashes) (.hashes hashes')

namespace InMemoryStore

def getHeads (store : InMemoryStore) (conversationId : ConversationId) : List NodeHash :=
  (store.heads.get conversationId).getD []

def getAdminHeads (store : InMemoryStore) (conversationId : ConversationId) : List NodeHash :=
  (store.adminHeads.get conversationId).getD []

/-- The numbers of verified and of speculative nodes. -/
def getNodeCounts (store : InMemoryStore) : Nat × Nat :=
  ((store.nodes.values.filter fun stored => stored.verified).length,
    (store.nodes.values.filter fun stored => !stored.verified).length)

def markVerified (store : InMemoryStore) (nodeHash : NodeHash) : InMemoryStore :=
  let noted := match store.nodes.get nodeHash with
    | some stored => store.noteSequence stored.node.senderPk stored.node.seq
    | none => store
  { noted with
      nodes := store.nodes.modify nodeHash fun stored => { stored with verified := true }
      speculativeNodes := store.speculativeNodes.erase nodeHash }

variable [Primitives]

def getNodeHashesInRange (store : InMemoryStore) (range : SyncRange) : List NodeHash :=
  (store.nodes.values.filter fun stored => stored.verified && range.covers stored.node).map
    fun stored => hash stored.node

/-- The store ignores the conversation of a write but for the heads and wire nodes. -/
def write (store : InMemoryStore) : Write → InMemoryStore
  | .putNode _ node verified => store.putNode node verified
  | .markVerified _ nodeHash => store.markVerified nodeHash
  | .setHeads conversationId heads =>
      { store with heads := store.heads.insert conversationId heads }
  | .setAdminHeads conversationId heads =>
      { store with adminHeads := store.adminHeads.insert conversationId heads }
  | .putWireNode conversationId nodeHash wire => store.putWireNode conversationId nodeHash wire
  | .removeWireNode _ nodeHash => store.removeWireNode nodeHash

def writeAll (store : InMemoryStore) (writes : List Write) : InMemoryStore :=
  writes.foldl write store

def read (store : InMemoryStore) : Read → Answer
  | .getNode nodeHash => .node (store.getNode nodeHash)
  | .hasNode nodeHash => .flag (store.hasNode nodeHash)
  | .isVerified nodeHash => .flag (store.isVerified nodeHash)
  | .hasChildren nodeHash => .flag (store.hasChildren nodeHash)
  | .getHeads conversationId => .heads (store.getHeads conversationId)
  | .getAdminHeads conversationId => .heads (store.getAdminHeads conversationId)
  | .getNodeCounts _ => .counts store.getNodeCounts.1 store.getNodeCounts.2
  | .getLastSequenceNumber _ senderPk => .number (store.getLastSequenceNumber senderPk)
  | .getVerifiedNodesByType _ nodeType => .ranked (store.getVerifiedNodesByType nodeType)
  | .getNodeHashesInRange _ range => .hashes (store.getNodeHashesInRange range)
  | .getSpeculativeNodes _ => .nodes store.getSpeculativeNodes
  | .getOpaqueNodeHashes _ => .hashes store.opaqueNodes

end InMemoryStore

namespace Overlay

/-- The nodes in the cache do not count. -/
def hasChildren (overlay : Overlay) (hash : NodeHash) : Bool := overlay.store.hasChildren hash

/-- The stored nodes by their stored status, and the cached ones that are not stored. -/
def getNodeCounts (overlay : Overlay) : Nat × Nat :=
  ((overlay.store.nodes.values.filter fun stored => stored.verified).length +
    (overlay.cache.nodes.keys.filter fun hash =>
      !overlay.store.hasNode hash && overlay.cache.verified.contains hash).length,
    overlay.speculativeCount)

variable [Primitives]

def getVerifiedNodesByType (overlay : Overlay) (nodeType : NodeType) : List MerkleNode :=
  let stored := overlay.store.getVerifiedNodesByType nodeType
  sortByKey MerkleNode.topologicalRank
    (stored ++ (overlay.cache.nodes.entries.filter fun entry =>
      overlay.cache.verified.contains entry.1 && entry.2.nodeType = nodeType &&
        !stored.any fun node => hash node = entry.1).map Prod.snd)

/-- The cached nodes count whether they are verified or not. -/
def getNodeHashesInRange (overlay : Overlay) (range : SyncRange) : List NodeHash :=
  let stored := overlay.store.getNodeHashesInRange range
  stored ++ (overlay.cache.nodes.entries.filter fun entry =>
    range.covers entry.2 && !stored.contains entry.1).map Prod.fst

def withCache (overlay : Overlay) (cache : PendingCache) : Overlay := ⟨overlay.store, cache⟩

/-- Writes go to the cache; a wire node is removed from the store as well. -/
def write (overlay : Overlay) : Write → Overlay
  | .putNode conversationId node verified =>
      overlay.withCache (overlay.cache.putNode conversationId node verified)
  | .markVerified conversationId nodeHash =>
      overlay.withCache (overlay.cache.markVerified conversationId nodeHash)
  | .setHeads conversationId heads => overlay.withCache
      { overlay.cache with heads := overlay.cache.heads.insert conversationId heads }
  | .setAdminHeads conversationId heads => overlay.withCache
      { overlay.cache with adminHeads := overlay.cache.adminHeads.insert conversationId heads }
  | .putWireNode conversationId nodeHash wire => overlay.withCache
      { overlay.cache with
          wireNodes := overlay.cache.wireNodes.insert nodeHash (conversationId, wire) }
  | .removeWireNode _ nodeHash =>
      ⟨overlay.store.removeWireNode nodeHash,
        { overlay.cache with wireNodes := overlay.cache.wireNodes.erase nodeHash }⟩

def writeAll (overlay : Overlay) (writes : List Write) : Overlay := writes.foldl write overlay

def read (overlay : Overlay) : Read → Answer
  | .getNode nodeHash => .node (overlay.getNode nodeHash)
  | .hasNode nodeHash => .flag (overlay.hasNode nodeHash)
  | .isVerified nodeHash => .flag (overlay.isVerified nodeHash)
  | .hasChildren nodeHash => .flag (overlay.hasChildren nodeHash)
  | .getHeads conversationId => .heads (overlay.getHeads conversationId)
  | .getAdminHeads conversationId => .heads (overlay.getAdminHeads conversationId)
  | .getNodeCounts _ => .counts overlay.getNodeCounts.1 overlay.getNodeCounts.2
  | .getLastSequenceNumber conversationId senderPk =>
      .number (overlay.getLastSequenceNumber conversationId senderPk)
  | .getVerifiedNodesByType _ nodeType => .ranked (overlay.getVerifiedNodesByType nodeType)
  | .getNodeHashesInRange _ range => .hashes (overlay.getNodeHashesInRange range)
  | .getSpeculativeNodes _ => .nodes overlay.getSpeculativeNodes
  | .getOpaqueNodeHashes conversationId => .hashes (overlay.getOpaqueNodeHashes conversationId)

end Overlay

/-! ## What a write changes in the store -/

namespace InMemoryStore

variable (store : InMemoryStore)

theorem noteChild_any (nodeHash parent : NodeHash) (parents : List NodeHash)
    (children : AssocMap NodeHash (List NodeHash)) :
    ((noteChild nodeHash parents children).get parent).any (fun hashes => !hashes.isEmpty) =
      (parents.contains parent ||
        (children.get parent).any fun hashes => !hashes.isEmpty) := by
  induction parents generalizing children with
  | nil => rfl
  | cons first rest ih =>
      have hstep := ih (children.insert first ((children.get first).getD [] ++ [nodeHash]))
      rw [noteChild, List.foldl_cons]
      refine hstep.trans ?_
      rw [AssocMap.get_insert, List.contains_cons]
      by_cases heq : parent = first
      · simp [heq]
      · simp [heq, beq_eq_false_iff_ne.mpr heq]

theorem getLastSequenceNumber_noteSequence (senderPk other : PhysicalDevicePk) (seq : Nat) :
    (store.noteSequence senderPk seq).getLastSequenceNumber other =
      if other = senderPk then max seq (store.getLastSequenceNumber other)
      else store.getLastSequenceNumber other := by
  rw [getLastSequenceNumber, noteSequence, AssocMap.get_insert]
  split
  next heq => rw [heq]; rfl
  next => rfl

theorem getLastSequenceNumber_markVerified (marked : NodeHash)
    (senderPk : PhysicalDevicePk) :
    (store.markVerified marked).getLastSequenceNumber senderPk =
      match store.getNode marked with
      | some node =>
          if senderPk = node.senderPk then max node.seq (store.getLastSequenceNumber senderPk)
          else store.getLastSequenceNumber senderPk
      | none => store.getLastSequenceNumber senderPk := by
  cases hget : store.nodes.get marked with
  | none =>
      simp only [markVerified, getNode, hget, Option.map_none]
      rfl
  | some stored =>
      simp only [markVerified, getNode, hget, Option.map_some]
      exact store.getLastSequenceNumber_noteSequence _ _ _

theorem markVerified_frame (marked : NodeHash) : ∃ seqs,
    store.markVerified marked =
      { store with
          nodes := store.nodes.modify marked fun stored => { stored with verified := true }
          speculativeNodes := store.speculativeNodes.erase marked
          lastSequenceNumbers := seqs } := by
  unfold markVerified
  simp only
  split <;> exact ⟨_, rfl⟩

theorem nodes_markVerified (marked nodeHash : NodeHash) :
    (store.markVerified marked).nodes.get nodeHash =
      if nodeHash = marked then
        (store.nodes.get nodeHash).map fun stored => { stored with verified := true }
      else store.nodes.get nodeHash := by
  obtain ⟨seqs, hframe⟩ := store.markVerified_frame marked
  rw [hframe]
  dsimp only
  split
  next heq => rw [heq, AssocMap.get_modify_self]
  next hne => exact store.nodes.get_modify_of_ne _ hne

theorem getNode_markVerified (marked nodeHash : NodeHash) :
    (store.markVerified marked).getNode nodeHash = store.getNode nodeHash := by
  rw [getNode, getNode, nodes_markVerified]
  split
  · rw [Option.map_map]
    rfl
  · rfl

theorem hasNode_eq (nodeHash : NodeHash) :
    store.hasNode nodeHash = (store.getNode nodeHash).isSome := by
  rw [hasNode, AssocMap.contains_eq, getNode, Option.isSome_map]

theorem isVerified_markVerified (marked nodeHash : NodeHash) :
    (store.markVerified marked).isVerified nodeHash =
      if nodeHash = marked then store.hasNode nodeHash else store.isVerified nodeHash := by
  rw [isVerified, nodes_markVerified, hasNode, AssocMap.contains_eq]
  split
  · cases store.nodes.get nodeHash <;> rfl
  · rfl

variable {nodeHash : NodeHash} {test : StoredNode → Bool} {node : MerkleNode}

theorem hasNode_of_isVerified (h : store.isVerified nodeHash = true) :
    store.hasNode nodeHash = true := by
  rw [isVerified] at h
  rw [hasNode, AssocMap.contains_eq]
  cases hget : store.nodes.get nodeHash with
  | none => rw [hget] at h; cases h
  | some stored => rfl

/-- The counts are those of the hashes with a status. -/
theorem getNodeCounts_eq :
    store.getNodeCounts =
      (((store.nodes.entries.filter fun entry => entry.2.verified).map Prod.fst).length,
        ((store.nodes.entries.filter fun entry => !entry.2.verified).map Prod.fst).length) := by
  rw [getNodeCounts, AssocMap.filter_values, AssocMap.filter_values]
  simp only [List.length_map]

theorem mem_verifiedKeys :
    nodeHash ∈ (store.nodes.entries.filter fun entry => entry.2.verified).map Prod.fst ↔
      store.isVerified nodeHash = true := by
  rw [AssocMap.mem_keysWhere, isVerified]
  cases store.nodes.get nodeHash <;> simp

theorem mem_speculativeKeys :
    nodeHash ∈ (store.nodes.entries.filter fun entry => !entry.2.verified).map Prod.fst ↔
      store.hasNode nodeHash = true ∧ store.isVerified nodeHash = false := by
  rw [AssocMap.mem_keysWhere, isVerified, hasNode, AssocMap.contains_eq]
  cases store.nodes.get nodeHash <;> simp

variable [Primitives]

section

variable (node : MerkleNode) (verified : Bool)

theorem nodes_putNode (nodeHash : NodeHash) :
    (store.putNode node verified).nodes.get nodeHash =
      if nodeHash = hash node then some ⟨node, verified, store.storedDistance node⟩
      else store.nodes.get nodeHash :=
  store.nodes.get_insert _ _ _

theorem getNode_putNode (nodeHash : NodeHash) :
    (store.putNode node verified).getNode nodeHash =
      if nodeHash = hash node then some node else store.getNode nodeHash := by
  rw [getNode, nodes_putNode, apply_ite (Option.map StoredNode.node)]
  rfl

theorem isVerified_putNode (nodeHash : NodeHash) :
    (store.putNode node verified).isVerified nodeHash =
      if nodeHash = hash node then verified else store.isVerified nodeHash := by
  rw [isVerified, nodes_putNode, apply_ite (Option.any StoredNode.verified)]
  rfl

theorem opaqueNodes_putNode :
    (store.putNode node verified).opaqueNodes = store.opaqueNodes.erase (hash node) := by
  cases verified <;> rfl

theorem wireNodes_putNode :
    (store.putNode node verified).wireNodes = store.wireNodes := by
  cases verified <;> rfl

end

/-! ## Contents that writes produce -/

/-- The sets of the store fit its nodes. -/
structure WellFormed : Prop where
  keyed : ∀ {nodeHash node}, store.getNode nodeHash = some node → hash node = nodeHash
  speculative : ∀ nodeHash, nodeHash ∈ store.speculativeNodes ↔
    store.hasNode nodeHash = true ∧ store.isVerified nodeHash = false
  speculativeNodup : store.speculativeNodes.Nodup
  opaqueAbsent : ∀ nodeHash ∈ store.opaqueNodes, store.hasNode nodeHash = false
  opaqueNodup : store.opaqueNodes.Nodup

theorem WellFormed.new : WellFormed new where
  keyed h := nomatch h
  speculative _ := ⟨fun h => absurd h List.not_mem_nil, fun h => nomatch h.1⟩
  speculativeNodup := List.nodup_nil
  opaqueAbsent _ h := absurd h List.not_mem_nil
  opaqueNodup := List.nodup_nil

variable {store}

section

variable (h : store.WellFormed)
include h

theorem WellFormed.putNode (node : MerkleNode) (verified : Bool) :
    (store.putNode node verified).WellFormed where
  keyed hget := by
    rw [getNode_putNode] at hget
    split at hget
    next heq =>
      cases hget
      exact heq.symm
    next => exact h.keyed hget
  speculative nodeHash := by
    rw [hasNode_eq, getNode_putNode, isVerified_putNode]
    have hold := h.speculative nodeHash
    rw [hasNode_eq] at hold
    -- A verified node leaves the speculative list and a speculative one joins it.
    have hset : (store.putNode node verified).speculativeNodes =
        if verified then store.speculativeNodes.erase (hash node)
        else insertOnce store.speculativeNodes (hash node) := by
      cases verified <;> rfl
    rw [hset]
    cases verified with
    | true =>
        simp only [if_true]
        rw [h.speculativeNodup.mem_erase_iff, hold]
        by_cases heq : nodeHash = hash node
        · simp [heq]
        · simp [heq]
    | false =>
        simp only [Bool.false_eq_true, if_false]
        rw [mem_insertOnce, hold]
        by_cases heq : nodeHash = hash node
        · simp [heq]
        · simp [heq]
  speculativeNodup := by
    cases verified with
    | true => exact h.speculativeNodup.erase _
    | false => exact nodup_insertOnce _ h.speculativeNodup
  opaqueAbsent nodeHash hmem := by
    rw [opaqueNodes_putNode, h.opaqueNodup.mem_erase_iff] at hmem
    rw [hasNode_eq, getNode_putNode, if_neg hmem.1, ← hasNode_eq]
    exact h.opaqueAbsent nodeHash hmem.2
  opaqueNodup := by
    rw [opaqueNodes_putNode]
    exact h.opaqueNodup.erase _

theorem WellFormed.markVerified (marked : NodeHash) :
    (store.markVerified marked).WellFormed where
  keyed hget := by
    rw [getNode_markVerified] at hget
    exact h.keyed hget
  speculative nodeHash := by
    rw [hasNode_eq, getNode_markVerified, isVerified_markVerified, ← hasNode_eq]
    have hset : (store.markVerified marked).speculativeNodes =
        store.speculativeNodes.erase marked := rfl
    rw [hset, h.speculativeNodup.mem_erase_iff, h.speculative]
    by_cases heq : nodeHash = marked
    · simp [heq]
    · simp [heq]
  speculativeNodup := h.speculativeNodup.erase _
  opaqueAbsent nodeHash hmem := by
    obtain ⟨seqs, hframe⟩ := store.markVerified_frame marked
    rw [hframe] at hmem
    rw [hasNode_eq, getNode_markVerified, ← hasNode_eq]
    exact h.opaqueAbsent nodeHash hmem
  opaqueNodup := by
    obtain ⟨seqs, hframe⟩ := store.markVerified_frame marked
    rw [hframe]
    exact h.opaqueNodup

theorem WellFormed.putWireNode (conversationId : ConversationId) (nodeHash : NodeHash)
    (wire : WireNode) :
    (store.putWireNode conversationId nodeHash wire).WellFormed where
  keyed := h.keyed
  speculative := h.speculative
  speculativeNodup := h.speculativeNodup
  opaqueAbsent other hmem := by
    unfold InMemoryStore.putWireNode at hmem
    simp only at hmem
    split at hmem
    next => exact h.opaqueAbsent other hmem
    next habsent =>
      rcases mem_insertOnce.mp hmem with hold | rfl
      · exact h.opaqueAbsent other hold
      · exact (Bool.not_eq_true _).mp habsent
  opaqueNodup := by
    unfold InMemoryStore.putWireNode
    simp only
    split
    next => exact h.opaqueNodup
    next => exact nodup_insertOnce _ h.opaqueNodup

theorem WellFormed.removeWireNode (nodeHash : NodeHash) :
    (store.removeWireNode nodeHash).WellFormed where
  keyed := h.keyed
  speculative := h.speculative
  speculativeNodup := h.speculativeNodup
  opaqueAbsent other hmem := h.opaqueAbsent other (List.mem_of_mem_erase hmem)
  opaqueNodup := h.opaqueNodup.erase _

theorem WellFormed.write (write : Write) :
    (store.write write).WellFormed := by
  cases write with
  | putNode conversationId node verified => exact h.putNode node verified
  | markVerified conversationId nodeHash => exact h.markVerified nodeHash
  | setHeads conversationId heads
  | setAdminHeads conversationId heads => exact ⟨h.1, h.2, h.3, h.4, h.5⟩
  | putWireNode conversationId nodeHash wire => exact h.putWireNode conversationId nodeHash wire
  | removeWireNode conversationId nodeHash => exact h.removeWireNode nodeHash

/-- Every content that writes produce is well formed. -/
theorem WellFormed.writeAll (writes : List Write) :
    (store.writeAll writes).WellFormed := by
  induction writes generalizing store with
  | nil => exact h
  | cons write rest ih => exact ih (h.write write)

/-! ## What the lists of nodes hold -/

theorem WellFormed.hash_node {stored : StoredNode} (hget : store.nodes.get nodeHash = some stored) :
    hash stored.node = nodeHash :=
  h.keyed (by rw [getNode, hget]; rfl)

/-- The hashes of the nodes that pass a test are their keys. -/
theorem WellFormed.hashes_filter (test : StoredNode → Bool) :
    (store.nodes.values.filter test).map (fun stored => hash stored.node) =
      (store.nodes.entries.filter fun entry => test entry.2).map Prod.fst := by
  rw [AssocMap.filter_values, List.map_map]
  refine List.map_congr_left fun entry hmem => ?_
  exact h.hash_node (AssocMap.get_eq_some_iff.mpr (List.mem_of_mem_filter hmem))

theorem WellFormed.mem_hashes_filter :
    nodeHash ∈ (store.nodes.values.filter test).map (fun stored => hash stored.node) ↔
      ∃ stored, store.nodes.get nodeHash = some stored ∧ test stored = true := by
  rw [h.hashes_filter, AssocMap.mem_keysWhere]

theorem WellFormed.nodup_nodes_filter (test : StoredNode → Bool) :
    ((store.nodes.values.filter test).map fun stored => hash stored.node).Nodup := by
  rw [h.hashes_filter]
  exact store.nodes.nodup_keysWhere _

theorem WellFormed.mem_nodes_filter :
    node ∈ (store.nodes.values.filter test).map StoredNode.node ↔
      ∃ stored, store.nodes.get (hash node) = some stored ∧ test stored = true ∧
        stored.node = node := by
  rw [AssocMap.filter_values, List.mem_map]
  constructor
  · rintro ⟨stored, hmem, rfl⟩
    obtain ⟨nodeHash, hget, htest⟩ := AssocMap.mem_valuesWhere.mp hmem
    exact ⟨stored, h.hash_node hget ▸ hget, htest, rfl⟩
  · rintro ⟨stored, hget, htest, rfl⟩
    exact ⟨stored, AssocMap.mem_valuesWhere.mpr ⟨_, hget, htest⟩, rfl⟩

theorem WellFormed.mem_getVerifiedNodesByType {nodeType : NodeType} :
    node ∈ store.getVerifiedNodesByType nodeType ↔
      store.getNode (hash node) = some node ∧ store.isVerified (hash node) = true ∧
        node.nodeType = nodeType := by
  rw [getVerifiedNodesByType, sortByKey, List.mem_insertionSort, h.mem_nodes_filter, getNode,
    isVerified]
  cases hget : store.nodes.get (hash node) with
  | none => simp
  | some stored =>
      simp only [Option.some.injEq, exists_eq_left', Option.map_some, Option.any_some,
        Bool.and_eq_true, decide_eq_true_eq]
      constructor
      · rintro ⟨⟨hverified, htype⟩, rfl⟩
        exact ⟨rfl, hverified, htype⟩
      · rintro ⟨rfl, hverified, htype⟩
        exact ⟨⟨hverified, htype⟩, rfl⟩

theorem WellFormed.nodup_getVerifiedNodesByType (nodeType : NodeType) :
    ((store.getVerifiedNodesByType nodeType).map hash).Nodup := by
  have hperm := (List.perm_insertionSort
    (fun (left right : MerkleNode) => left.topologicalRank ≤ right.topologicalRank)
    ((store.nodes.values.filter fun stored =>
      stored.verified && stored.node.nodeType = nodeType).map StoredNode.node)).map hash
  refine hperm.nodup_iff.mpr ?_
  rw [List.map_map]
  exact h.nodup_nodes_filter _

theorem WellFormed.mem_getNodeHashesInRange {range : SyncRange} :
    nodeHash ∈ store.getNodeHashesInRange range ↔
      store.isVerified nodeHash = true ∧ ∃ node, store.getNode nodeHash = some node ∧
        range.covers node = true := by
  rw [getNodeHashesInRange, h.mem_hashes_filter, getNode, isVerified]
  cases hget : store.nodes.get nodeHash with
  | none => simp
  | some stored => simp

theorem WellFormed.nodup_getNodeHashesInRange (range : SyncRange) :
    (store.getNodeHashesInRange range).Nodup :=
  h.nodup_nodes_filter _

theorem WellFormed.mem_getSpeculativeNodes :
    node ∈ store.getSpeculativeNodes ↔
      store.getNode (hash node) = some node ∧ store.isVerified (hash node) = false := by
  rw [getSpeculativeNodes, List.mem_filterMap]
  constructor
  · rintro ⟨nodeHash, hmem, hget⟩
    obtain rfl := h.keyed hget
    exact ⟨hget, ((h.speculative _).mp hmem).2⟩
  · rintro ⟨hget, hunverified⟩
    refine ⟨hash node, (h.speculative _).mpr ⟨?_, hunverified⟩, hget⟩
    rw [hasNode_eq, hget]
    rfl

theorem WellFormed.hashes_getSpeculativeNodes :
    store.getSpeculativeNodes.map hash = store.speculativeNodes := by
  have hall : ∀ hashes : List NodeHash, (∀ nodeHash ∈ hashes, store.hasNode nodeHash = true) →
      (hashes.filterMap store.getNode).map hash = hashes := by
    intro hashes hpresent
    induction hashes with
    | nil => rfl
    | cons nodeHash rest ih =>
        have hfirst := hpresent nodeHash List.mem_cons_self
        rw [hasNode_eq, Option.isSome_iff_exists] at hfirst
        obtain ⟨node, hget⟩ := hfirst
        rw [List.filterMap_cons_some hget, List.map_cons, h.keyed hget,
          ih fun other hmem => hpresent other (List.mem_cons_of_mem _ hmem)]
  exact hall _ fun nodeHash hmem => ((h.speculative nodeHash).mp hmem).1

end

end InMemoryStore

/-- Sorted permutations have the same ranks in the same order. -/
theorem map_sortByKey_of_perm {α : Type} (key : α → Nat) {left right : List α}
    (hperm : left.Perm right) : (sortByKey key left).map key = (sortByKey key right).map key := by
  have hsorted : ∀ list : List α, ((sortByKey key list).map key).Pairwise (· ≤ ·) := fun list =>
    List.pairwise_map.mpr (List.pairwise_insertionSort (fun left right => key left ≤ key right) list)
  refine List.Perm.eq_of_pairwise' (hsorted left) (hsorted right) (List.Perm.map key ?_)
  exact ((List.perm_insertionSort _ _).trans hperm).trans (List.perm_insertionSort _ _).symm

end MerkleTox.Core
