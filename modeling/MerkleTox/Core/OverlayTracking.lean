import MerkleTox.Core.Overlay

/-! # The overlay in front of the store

The overlay is meant to read as the store does once the pending writes are applied to
it. Nodes and heads always do. The other reads merge the cache with the store by rules of
their own, which some writes break; `faithful` tells these writes apart, for each read.
-/

namespace MerkleTox.Core

open Library Proto

variable {node : MerkleNode} {senderPk : PhysicalDevicePk}

/-! ## Writes that a read keeps up with -/

namespace Overlay

/-- The node is in the cache. -/
def caches (overlay : Overlay) (nodeHash : NodeHash) : Bool :=
  overlay.cache.nodes.contains nodeHash

/-- The last sequence number of a sender takes that of a node in the conversation that is
written, where it must not sink, and in no other, where it must not rise. -/
def follows (overlay : Overlay) (conversationId written : ConversationId)
    (node : MerkleNode) : Bool :=
  if written = conversationId then
    overlay.getLastSequenceNumber conversationId node.senderPk ≤ node.seq
  else node.seq ≤ overlay.getLastSequenceNumber conversationId node.senderPk

variable [Primitives]

/-- The node is itself the one that is stored under its hash. -/
def stores (overlay : Overlay) (node : MerkleNode) : Bool :=
  overlay.store.getNode (hash node) = some node

/-- After a write a read through the overlay still is the read on the store. -/
def faithful (overlay : Overlay) : Read → Write → Bool
  | .isVerified nodeHash, .putNode _ node verified =>
      verified || hash node ≠ nodeHash || !overlay.isVerified nodeHash
  | .isVerified nodeHash, .markVerified _ marked =>
      marked ≠ nodeHash || overlay.hasNode nodeHash
  | .hasChildren nodeHash, .putNode _ node _ =>
      !node.parents.contains nodeHash || overlay.hasChildren nodeHash
  | .getLastSequenceNumber conversationId senderPk, .putNode written node verified =>
      !verified || node.senderPk ≠ senderPk || overlay.follows conversationId written node
  | .getLastSequenceNumber conversationId senderPk, .markVerified written marked =>
      match overlay.cache.nodes.get marked, overlay.store.getNode marked with
      | some node, _ => node.senderPk ≠ senderPk || overlay.follows conversationId written node
      | none, some node => node.senderPk ≠ senderPk ||
          node.seq ≤ overlay.getLastSequenceNumber conversationId senderPk
      | none, none => true
  | .getNodeCounts _, .putNode _ node verified =>
      if verified then
        !overlay.store.hasNode (hash node) || overlay.store.isVerified (hash node)
      else !overlay.isVerified (hash node)
  | .getNodeCounts _, .markVerified _ marked =>
      !overlay.store.hasNode marked || overlay.store.isVerified marked
  | .getVerifiedNodesByType _ nodeType, .putNode _ node verified =>
      (!overlay.store.isVerified (hash node) || overlay.stores node) &&
        (verified || node.nodeType ≠ nodeType || !overlay.isVerified (hash node))
  | .getVerifiedNodesByType _ nodeType, .markVerified _ marked =>
      overlay.caches marked || overlay.store.isVerified marked ||
        !(overlay.store.getNode marked).any fun node => node.nodeType = nodeType
  | .getNodeHashesInRange _ range, .putNode _ node verified =>
      (!overlay.store.isVerified (hash node) || overlay.stores node) &&
        (verified || !range.covers node)
  | .getNodeHashesInRange _ range, .markVerified _ marked =>
      overlay.caches marked || overlay.store.isVerified marked ||
        !(overlay.store.getNode marked).any range.covers
  | .getSpeculativeNodes _, .putNode _ node verified =>
      verified || (!overlay.cache.verified.contains (hash node) &&
        (!overlay.store.hasNode (hash node) || overlay.store.isVerified (hash node) ||
          overlay.stores node))
  | .getOpaqueNodeHashes conversationId, .putWireNode written nodeHash _ =>
      overlay.caches nodeHash ||
        if overlay.store.hasNode nodeHash then written ≠ conversationId
        else written = conversationId || overlay.store.opaqueNodes.contains nodeHash
  | _, _ => true

attribute [simp] faithful

/-- The read keeps up with each of the writes. -/
def faithfulAll (overlay : Overlay) (read : Read) : List Write → Bool
  | [] => true
  | write :: rest => overlay.faithful read write && (overlay.write write).faithfulAll read rest

end Overlay

/-! ## The overlay after a write -/

namespace PendingCache

variable (cache : PendingCache)

theorem markVerified_frame (conversationId : ConversationId)
    (marked : NodeHash) : ∃ seqs, cache.markVerified conversationId marked =
      { cache with
          verified := insertOnce cache.verified marked
          lastVerifiedSequences := seqs } := by
  unfold markVerified
  simp only
  split <;> exact ⟨_, rfl⟩

theorem nodes_markVerified (conversationId : ConversationId)
    (marked : NodeHash) : (cache.markVerified conversationId marked).nodes = cache.nodes := by
  obtain ⟨seqs, hframe⟩ := cache.markVerified_frame conversationId marked
  rw [hframe]

theorem mem_verified_markVerified (conversationId : ConversationId)
    (marked nodeHash : NodeHash) :
    nodeHash ∈ (cache.markVerified conversationId marked).verified ↔
      nodeHash ∈ cache.verified ∨ nodeHash = marked := by
  obtain ⟨seqs, hframe⟩ := cache.markVerified_frame conversationId marked
  rw [hframe]
  exact mem_insertOnce

variable [Primitives]

theorem nodes_putNode (conversationId : ConversationId)
    (node : MerkleNode) (verified : Bool) (nodeHash : NodeHash) :
    (cache.putNode conversationId node verified).nodes.get nodeHash =
      if nodeHash = hash node then some node else cache.nodes.get nodeHash := by
  cases verified <;> exact cache.nodes.get_insert _ _ _

theorem mem_verified_putNode (conversationId : ConversationId)
    (node : MerkleNode) (verified : Bool) (nodeHash : NodeHash) :
    nodeHash ∈ (cache.putNode conversationId node verified).verified ↔
      nodeHash ∈ cache.verified ∨ (verified = true ∧ nodeHash = hash node) := by
  cases verified with
  | true => exact mem_insertOnce.trans (by simp)
  | false =>
      have hsame : (cache.putNode conversationId node false).verified = cache.verified := rfl
      simp [hsame]

end PendingCache

namespace Overlay

variable (overlay : Overlay)

theorem caches_eq (nodeHash : NodeHash) :
    overlay.caches nodeHash = (overlay.cache.nodes.get nodeHash).isSome :=
  overlay.cache.nodes.contains_eq nodeHash

theorem isVerified_iff (nodeHash : NodeHash) :
    overlay.isVerified nodeHash = true ↔
      nodeHash ∈ overlay.cache.verified ∨ overlay.store.isVerified nodeHash = true := by
  rw [isVerified, Bool.or_eq_true, List.contains_iff_mem]

theorem hasNode_eq (nodeHash : NodeHash) :
    overlay.hasNode nodeHash = (overlay.getNode nodeHash).isSome := by
  rw [hasNode, getNode, InMemoryStore.hasNode_eq, AssocMap.contains_eq]
  cases overlay.cache.nodes.get nodeHash <;> rfl

variable {nodeHash : NodeHash}

theorem getNode_of_cached (hget : overlay.cache.nodes.get nodeHash = some node) :
    overlay.getNode nodeHash = some node := by
  rw [getNode, hget]
  rfl

theorem getNode_of_uncached (hget : overlay.caches nodeHash = false) :
    overlay.getNode nodeHash = overlay.store.getNode nodeHash := by
  rw [caches_eq, Option.isSome_eq_false_iff, Option.isNone_iff_eq_none] at hget
  rw [getNode, hget, Option.none_or]

theorem getLastSequenceNumber_insert (conversationId written : ConversationId)
    (senderPk writer : PhysicalDevicePk) (seq : Nat) :
    ((overlay.cache.lastVerifiedSequences.insert (written, writer) seq).get
        (conversationId, senderPk)).getD (overlay.store.getLastSequenceNumber senderPk) =
      if (conversationId, senderPk) = (written, writer) then seq
      else overlay.getLastSequenceNumber conversationId senderPk := by
  rw [AssocMap.get_insert]
  split <;> rfl

variable [Primitives] (write : Write)

/-- The nodes in the store stay as they are until the cache is flushed. -/
@[simp]
theorem write_getNode : (overlay.write write).store.getNode = overlay.store.getNode := by
  cases write <;> rfl

@[simp]
theorem write_hasNode : (overlay.write write).store.hasNode = overlay.store.hasNode := by
  cases write <;> rfl

@[simp]
theorem write_isVerified :
    (overlay.write write).store.isVerified = overlay.store.isVerified := by
  cases write <;> rfl

section

variable (conversationId : ConversationId)

theorem caches_putNode (node : MerkleNode) (verified : Bool) (nodeHash : NodeHash) :
    (overlay.write (.putNode conversationId node verified)).caches nodeHash = true ↔
      overlay.caches nodeHash = true ∨ nodeHash = hash node := by
  rw [caches_eq, caches_eq]
  simp only [write, withCache, PendingCache.nodes_putNode]
  split
  next heq => simp [heq]
  next hne => simp [hne]

theorem caches_markVerified (marked : NodeHash) :
    (overlay.write (.markVerified conversationId marked)).caches = overlay.caches := by
  funext nodeHash
  rw [caches_eq, caches_eq]
  simp only [write, withCache, PendingCache.nodes_markVerified]

theorem isVerified_putNode (node : MerkleNode) (verified : Bool) (nodeHash : NodeHash) :
    (overlay.write (.putNode conversationId node verified)).isVerified nodeHash = true ↔
      overlay.isVerified nodeHash = true ∨ (verified = true ∧ nodeHash = hash node) := by
  rw [isVerified_iff, isVerified_iff, write_isVerified, write, withCache,
    PendingCache.mem_verified_putNode, or_right_comm]

theorem isVerified_markVerified (marked nodeHash : NodeHash) :
    (overlay.write (.markVerified conversationId marked)).isVerified nodeHash = true ↔
      overlay.isVerified nodeHash = true ∨ nodeHash = marked := by
  rw [isVerified_iff, isVerified_iff, write_isVerified, write, withCache,
    PendingCache.mem_verified_markVerified, or_right_comm]

end

end Overlay

variable {conversationId written : ConversationId}

/-- A verified node of the sender that follows up takes the sequence number of both. -/
theorem Overlay.follows_max {overlay : Overlay}
    (hfollows : overlay.follows conversationId written node = true) :
    max node.seq (overlay.getLastSequenceNumber conversationId node.senderPk) =
      if written = conversationId then node.seq
      else overlay.getLastSequenceNumber conversationId node.senderPk := by
  unfold follows at hfollows
  split
  next heq =>
    rw [if_pos heq, decide_eq_true_eq] at hfollows
    exact max_eq_left hfollows
  next hne =>
    rw [if_neg hne, decide_eq_true_eq] at hfollows
    exact max_eq_right hfollows

/-- What a verified node of the overlay does to the sequence numbers there and on the store. -/
theorem Overlay.sequence_follows {overlay : Overlay}
    (hfaithful : node.senderPk ≠ senderPk ∨ overlay.follows conversationId written node = true) :
    (if senderPk = node.senderPk then
      max node.seq (overlay.getLastSequenceNumber conversationId senderPk)
    else overlay.getLastSequenceNumber conversationId senderPk) =
      (if (conversationId, senderPk) = (written, node.senderPk) then node.seq
      else overlay.getLastSequenceNumber conversationId senderPk) := by
  by_cases hsender : senderPk = node.senderPk
  · subst hsender
    rcases hfaithful with hne | hfollows
    · exact absurd rfl hne
    · rw [if_pos rfl, follows_max hfollows]
      simp only [Prod.mk.injEq, and_true, eq_comm]
  · rw [if_neg hsender, if_neg fun heq => hsender (Prod.ext_iff.mp heq).2]

/-! ## What each read rests on -/

/-- A verified node of the store is in the cache, if at all, as the node it is. -/
def Overlay.KeepsVerified (overlay : Overlay) : Prop :=
  ∀ nodeHash node, overlay.store.isVerified nodeHash = true →
    overlay.cache.nodes.get nodeHash = some node → overlay.store.getNode nodeHash = some node

/-- Why a read through the overlay is the read on the store: for the lists and counts, how
the status of a node in the store follows from what the overlay holds. -/
def Overlay.Tracks (overlay : Overlay) (direct : InMemoryStore) : Read → Prop
  | .isVerified nodeHash => direct.isVerified nodeHash = overlay.isVerified nodeHash
  | .hasChildren nodeHash => direct.hasChildren nodeHash = overlay.hasChildren nodeHash
  | .getLastSequenceNumber conversationId senderPk =>
      direct.getLastSequenceNumber senderPk =
        overlay.getLastSequenceNumber conversationId senderPk
  | .getNodeCounts _ => ∀ nodeHash, direct.isVerified nodeHash = true ↔
      overlay.store.isVerified nodeHash = true ∨ (overlay.caches nodeHash = true ∧
        overlay.store.hasNode nodeHash = false ∧ nodeHash ∈ overlay.cache.verified)
  | .getVerifiedNodesByType _ nodeType =>
      (∀ nodeHash node, overlay.getNode nodeHash = some node → node.nodeType = nodeType →
        (direct.isVerified nodeHash = true ↔ overlay.store.isVerified nodeHash = true ∨
          (overlay.caches nodeHash = true ∧ nodeHash ∈ overlay.cache.verified))) ∧
            overlay.KeepsVerified
  | .getNodeHashesInRange _ range =>
      (∀ nodeHash node, overlay.getNode nodeHash = some node → range.covers node = true →
        (direct.isVerified nodeHash = true ↔
          overlay.store.isVerified nodeHash = true ∨ overlay.caches nodeHash = true)) ∧
            overlay.KeepsVerified
  | .getSpeculativeNodes _ =>
      (∀ nodeHash, overlay.hasNode nodeHash = true →
        (direct.isVerified nodeHash = false ↔ nodeHash ∉ overlay.cache.verified ∧
          (overlay.store.isVerified nodeHash = false ∨ overlay.caches nodeHash = true))) ∧
      ∀ nodeHash node stored, nodeHash ∉ overlay.cache.verified →
        overlay.store.isVerified nodeHash = false →
          overlay.store.getNode nodeHash = some stored →
            overlay.cache.nodes.get nodeHash = some node → stored = node
  | .getOpaqueNodeHashes conversationId => ∀ nodeHash, nodeHash ∈ direct.opaqueNodes ↔
      overlay.caches nodeHash = false ∧ (nodeHash ∈ overlay.store.opaqueNodes ∨
        ∃ wire, overlay.cache.wireNodes.get nodeHash = some (conversationId, wire))
  | _ => True

theorem Overlay.Tracks.refl (store : InMemoryStore) (read : Read) :
    Overlay.Tracks ⟨store, .new⟩ store read := by
  have hnone : ∀ nodeHash, Overlay.caches ⟨store, .new⟩ nodeHash = false := fun _ => rfl
  cases read with
  | isVerified nodeHash => exact (Bool.false_or _).symm
  | hasChildren nodeHash => rfl
  | getLastSequenceNumber conversationId senderPk => rfl
  | getNodeCounts conversationId =>
      intro nodeHash
      simp [hnone]
  | getVerifiedNodesByType conversationId nodeType =>
      refine ⟨fun nodeHash node _ _ => ?_, fun nodeHash node _ hget => nomatch hget⟩
      simp [hnone]
  | getNodeHashesInRange conversationId range =>
      refine ⟨fun nodeHash node _ _ => ?_, fun nodeHash node _ hget => nomatch hget⟩
      simp [hnone]
  | getSpeculativeNodes conversationId =>
      refine ⟨fun nodeHash _ => ?_, fun _ _ _ _ _ _ hget => nomatch hget⟩
      have hempty : nodeHash ∉ PendingCache.new.verified := List.not_mem_nil
      simp [hnone, hempty]
  | getOpaqueNodeHashes conversationId =>
      intro nodeHash
      have habsent : (PendingCache.new.wireNodes).get nodeHash = none := rfl
      simp [hnone, habsent]
  | _ => trivial

/-! ## The store that the writes are applied to -/

section Simulation

variable [Primitives]

/-- The store `direct` has seen the writes that wait in the overlay's cache. -/
structure Overlay.Precedes (overlay : Overlay) (direct : InMemoryStore) : Prop where
  stored : overlay.store.WellFormed
  written : direct.WellFormed
  cached : ∀ {nodeHash node}, overlay.cache.nodes.get nodeHash = some node →
    hash node = nodeHash
  nodes : ∀ nodeHash, direct.getNode nodeHash = overlay.getNode nodeHash
  heads : direct.getHeads = overlay.getHeads
  adminHeads : direct.getAdminHeads = overlay.getAdminHeads

namespace Overlay.Precedes

variable {overlay : Overlay} {direct : InMemoryStore}

theorem refl {store : InMemoryStore} (h : store.WellFormed) :
    Overlay.Precedes ⟨store, .new⟩ store where
  stored := h
  written := h
  cached hget := nomatch hget
  nodes _ := rfl
  heads := rfl
  adminHeads := rfl

theorem hasNode (h : overlay.Precedes direct) (nodeHash : NodeHash) :
    direct.hasNode nodeHash = overlay.hasNode nodeHash := by
  rw [InMemoryStore.hasNode_eq, Overlay.hasNode_eq, h.nodes]

theorem hashes_cached (h : overlay.Precedes direct) (test : NodeHash × MerkleNode → Bool) :
    ((overlay.cache.nodes.entries.filter test).map Prod.snd).map hash =
      (overlay.cache.nodes.entries.filter test).map Prod.fst := by
  rw [List.map_map]
  refine List.map_congr_left fun entry hmem => ?_
  exact h.cached (AssocMap.get_eq_some_iff.mpr (List.mem_of_mem_filter hmem))

theorem mem_cached (h : overlay.Precedes direct)
    {test : NodeHash × MerkleNode → Bool} :
    node ∈ (overlay.cache.nodes.entries.filter test).map Prod.snd ↔
      overlay.cache.nodes.get (hash node) = some node ∧ test (hash node, node) = true := by
  rw [AssocMap.mem_valuesWhere]
  constructor
  · rintro ⟨nodeHash, hget, htest⟩
    obtain rfl := h.cached hget
    exact ⟨hget, htest⟩
  · exact fun ⟨hget, htest⟩ => ⟨_, hget, htest⟩

/-- A write to both keeps them together. -/
theorem write (h : overlay.Precedes direct) (write : Write) :
    (overlay.write write).Precedes (direct.write write) where
  stored := by
    cases write with
    | removeWireNode conversationId nodeHash => exact h.stored.removeWireNode nodeHash
    | _ => exact h.stored
  written := h.written.write write
  cached {nodeHash other} hget := by
    cases write with
    | putNode conversationId node verified =>
        have hcase := (overlay.cache.nodes_putNode conversationId node verified nodeHash).symm.trans
          hget
        split at hcase
        next heq =>
          cases hcase
          exact heq.symm
        next => exact h.cached hcase
    | markVerified conversationId marked =>
        have hnodes := overlay.cache.nodes_markVerified conversationId marked
        exact h.cached (hnodes ▸ hget)
    | _ => exact h.cached hget
  nodes nodeHash := by
    cases write with
    | putNode conversationId node verified =>
        have hcached := overlay.cache.nodes_putNode conversationId node verified nodeHash
        have hdirect := direct.getNode_putNode node verified nodeHash
        rw [h.nodes] at hdirect
        refine hdirect.trans ?_
        simp only [Overlay.getNode, Overlay.write, Overlay.withCache, hcached]
        split <;> rfl
    | markVerified conversationId marked =>
        have hnodes := overlay.cache.nodes_markVerified conversationId marked
        refine (direct.getNode_markVerified marked nodeHash).trans ?_
        simp only [Overlay.getNode, Overlay.write, Overlay.withCache, hnodes]
        exact h.nodes nodeHash
    | _ => exact h.nodes nodeHash
  heads := by
    cases write with
    | setHeads written heads =>
        funext conversationId
        have hold := congrFun h.heads conversationId
        simp only [InMemoryStore.getHeads, Overlay.getHeads, InMemoryStore.write, Overlay.write,
          Overlay.withCache, AssocMap.get_insert] at hold ⊢
        split
        next => rfl
        next => exact hold
    | putNode conversationId node verified => cases verified <;> exact h.heads
    | markVerified conversationId marked =>
        obtain ⟨seqs, hdirect⟩ := direct.markVerified_frame marked
        obtain ⟨seqs', hcache⟩ := overlay.cache.markVerified_frame conversationId marked
        simp only [InMemoryStore.write, Overlay.write, Overlay.withCache, hdirect, hcache]
        exact h.heads
    | _ => exact h.heads
  adminHeads := by
    cases write with
    | setAdminHeads written heads =>
        funext conversationId
        have hold := congrFun h.adminHeads conversationId
        simp only [InMemoryStore.getAdminHeads, Overlay.getAdminHeads, InMemoryStore.write,
          Overlay.write, Overlay.withCache, AssocMap.get_insert] at hold ⊢
        split
        next => rfl
        next => exact hold
    | putNode conversationId node verified => cases verified <;> exact h.adminHeads
    | markVerified conversationId marked =>
        obtain ⟨seqs, hdirect⟩ := direct.markVerified_frame marked
        obtain ⟨seqs', hcache⟩ := overlay.cache.markVerified_frame conversationId marked
        simp only [InMemoryStore.write, Overlay.write, Overlay.withCache, hdirect, hcache]
        exact h.adminHeads
    | _ => exact h.adminHeads

end Overlay.Precedes

variable {overlay : Overlay} {direct : InMemoryStore}

namespace Overlay.Tracks

variable {nodeHash : NodeHash}

theorem write_isVerified {write : Write} (hprecedes : overlay.Precedes direct)
    (htracks : overlay.Tracks direct (.isVerified nodeHash))
    (hfaithful : overlay.faithful (.isVerified nodeHash) write = true) :
    (overlay.write write).Tracks (direct.write write) (.isVerified nodeHash) := by
  have hold : direct.isVerified nodeHash = overlay.isVerified nodeHash := htracks
  rw [Tracks, Bool.eq_iff_iff]
  cases write with
  | putNode conversationId node verified =>
      rw [Overlay.isVerified_putNode, InMemoryStore.write, InMemoryStore.isVerified_putNode, hold]
      simp only [faithful, Bool.or_eq_true, decide_eq_true_eq, Bool.not_eq_true'] at hfaithful
      split
      next heq =>
        subst heq
        simp only [ne_eq, not_true_eq_false, or_false, and_true] at hfaithful ⊢
        rcases hfaithful with rfl | hunverified
        · simp
        · simp [hunverified]
      next hne => simp [hne]
  | markVerified conversationId marked =>
      rw [Overlay.isVerified_markVerified, InMemoryStore.write,
        InMemoryStore.isVerified_markVerified, hold, hprecedes.hasNode]
      simp only [faithful, Bool.or_eq_true, decide_eq_true_eq] at hfaithful
      split
      next heq =>
        subst heq
        simpa using hfaithful
      next hne => simp [hne]
  | _ => exact Bool.eq_iff_iff.mp hold

theorem write_hasChildren {write : Write} (htracks : overlay.Tracks direct (.hasChildren nodeHash))
    (hfaithful : overlay.faithful (.hasChildren nodeHash) write = true) :
    (overlay.write write).Tracks (direct.write write) (.hasChildren nodeHash) := by
  have hold : direct.hasChildren nodeHash = overlay.hasChildren nodeHash := htracks
  rw [Tracks]
  cases write with
  | putNode conversationId node verified =>
      have hdirect : (direct.putNode node verified).hasChildren nodeHash =
          (node.parents.contains nodeHash || direct.hasChildren nodeHash) := by
        cases verified <;> exact InMemoryStore.noteChild_any _ _ _ _
      simp only [faithful, Bool.or_eq_true, Bool.not_eq_true'] at hfaithful
      rw [InMemoryStore.write, hdirect, hold]
      rcases hfaithful with hother | hchildren
      · rw [hother, Bool.false_or]
        rfl
      · rw [hchildren, Bool.or_true]
        exact hchildren.symm
  | markVerified conversationId marked =>
      obtain ⟨seqs, hdirect⟩ := direct.markVerified_frame marked
      rw [InMemoryStore.write, hdirect]
      exact hold
  | _ => exact hold

variable {conversationId : ConversationId}

theorem write_getLastSequenceNumber {write : Write} (hprecedes : overlay.Precedes direct)
    (htracks : overlay.Tracks direct (.getLastSequenceNumber conversationId senderPk))
    (hfaithful : overlay.faithful (.getLastSequenceNumber conversationId senderPk) write = true) :
    (overlay.write write).Tracks (direct.write write)
      (.getLastSequenceNumber conversationId senderPk) := by
  have hold : direct.getLastSequenceNumber senderPk =
      overlay.getLastSequenceNumber conversationId senderPk := htracks
  rw [Tracks]
  cases write with
  | putNode written node verified =>
      cases verified with
      | false => exact hold
      | true =>
          simp only [faithful, Bool.not_true, Bool.false_or, Bool.or_eq_true,
            decide_eq_true_eq] at hfaithful
          have hdirect := direct.getLastSequenceNumber_noteSequence node.senderPk senderPk node.seq
          rw [hold, Overlay.sequence_follows hfaithful,
            ← overlay.getLastSequenceNumber_insert] at hdirect
          exact hdirect
  -- The cache raises its number only for a node that it holds itself; a node of the store must
  -- not be ahead of what the overlay reports.
  | markVerified written marked =>
      have hdirect := direct.getLastSequenceNumber_markVerified marked senderPk
      rw [hprecedes.nodes, hold] at hdirect
      refine hdirect.trans ?_
      cases hcached : overlay.cache.nodes.get marked with
      | some node =>
          simp only [faithful, hcached, Bool.or_eq_true, decide_eq_true_eq] at hfaithful
          simp only [overlay.getNode_of_cached hcached, Overlay.sequence_follows hfaithful,
            ← overlay.getLastSequenceNumber_insert]
          simp only [Overlay.write, withCache, PendingCache.markVerified, hcached]
          rfl
      | none =>
          have hsame : (overlay.write (.markVerified written marked)).getLastSequenceNumber
              conversationId senderPk =
                overlay.getLastSequenceNumber conversationId senderPk := by
            simp only [Overlay.write, withCache, PendingCache.markVerified, hcached]
            rfl
          rw [hsame, Overlay.getNode, hcached, Option.none_or]
          cases hstored : overlay.store.getNode marked with
          | none => rfl
          | some node =>
              simp only [faithful, hcached, hstored, Bool.or_eq_true,
                decide_eq_true_eq] at hfaithful
              dsimp only
              split
              next hsender =>
                rcases hfaithful with hne | hle
                · exact absurd hsender.symm hne
                · exact max_eq_right hle
              next => rfl
  | _ => exact hold

theorem write_getNodeCounts {write : Write} (hprecedes : overlay.Precedes direct)
    (htracks : overlay.Tracks direct (.getNodeCounts conversationId))
    (hfaithful : overlay.faithful (.getNodeCounts conversationId) write = true) :
    (overlay.write write).Tracks (direct.write write) (.getNodeCounts conversationId) := by
  intro nodeHash
  have hold := htracks nodeHash
  have hstored : overlay.store.isVerified nodeHash = true → overlay.store.hasNode nodeHash = true :=
    overlay.store.hasNode_of_isVerified
  rw [overlay.write_isVerified, overlay.write_hasNode]
  cases write with
  | putNode written node verified =>
      rw [InMemoryStore.write, InMemoryStore.isVerified_putNode, overlay.caches_putNode,
        Overlay.write, withCache, PendingCache.mem_verified_putNode]
      by_cases heq : nodeHash = hash node
      · subst heq
        rw [if_pos rfl]
        cases verified with
        | true =>
            simp only [faithful, if_true, Bool.or_eq_true, Bool.not_eq_true'] at hfaithful
            simp only [or_true, true_and, and_true, true_iff]
            exact hfaithful.symm
        | false =>
            simp only [faithful, Bool.false_eq_true, if_false, Bool.not_eq_true'] at hfaithful
            have hnot := (overlay.isVerified_iff (hash node)).not.mp
              (by rw [hfaithful]; exact Bool.false_ne_true)
            rw [not_or] at hnot
            simp [hnot.1, hnot.2]
      · rw [if_neg heq, hold]
        simp [heq]
  | markVerified written marked =>
      rw [InMemoryStore.write, InMemoryStore.isVerified_markVerified, overlay.caches_markVerified,
        Overlay.write, withCache, PendingCache.mem_verified_markVerified]
      by_cases heq : nodeHash = marked
      · subst heq
        simp only [faithful, Bool.or_eq_true, Bool.not_eq_true'] at hfaithful
        rw [if_pos rfl, hprecedes.hasNode, Overlay.hasNode, Bool.or_eq_true]
        simp only [or_true, and_true, Overlay.caches]
        rcases hfaithful with habsent | hverified
        · have hunverified : overlay.store.isVerified nodeHash = false :=
            Bool.eq_false_iff.mpr fun h => by rw [hstored h] at habsent; cases habsent
          simp [habsent, hunverified]
        · simp [hverified, hstored hverified]
      · rw [if_neg heq, hold]
        simp [heq]
  | _ => exact hold

theorem write_keepsVerified {write : Write} (h : overlay.KeepsVerified)
    (hput : ∀ conversationId node verified, write = .putNode conversationId node verified →
      overlay.store.isVerified (hash node) = true → overlay.stores node = true) :
    (overlay.write write).KeepsVerified := by
  intro nodeHash node hverified hget
  rw [overlay.write_isVerified] at hverified
  rw [overlay.write_getNode]
  cases write with
  | putNode conversationId put verified =>
      have hcase := (overlay.cache.nodes_putNode conversationId put verified nodeHash).symm.trans
        hget
      split at hcase
      next heq =>
        cases hcase
        subst heq
        exact decide_eq_true_eq.mp (hput _ _ _ rfl hverified)
      next => exact h nodeHash node hverified hcase
  | markVerified conversationId marked =>
      have hnodes := overlay.cache.nodes_markVerified conversationId marked
      exact h nodeHash node hverified (hnodes ▸ hget)
  | _ => exact h nodeHash node hverified hget

section

variable (hprecedes : overlay.Precedes direct)
include hprecedes

theorem write_getVerifiedNodesByType {write : Write} {nodeType : NodeType}
    (htracks : overlay.Tracks direct (.getVerifiedNodesByType conversationId nodeType))
    (hfaithful : overlay.faithful (.getVerifiedNodesByType conversationId nodeType) write = true) :
    (overlay.write write).Tracks (direct.write write)
      (.getVerifiedNodesByType conversationId nodeType) := by
  obtain ⟨hstatus, hkeeps⟩ := htracks
  refine ⟨fun nodeHash other hget htype => ?_, write_keepsVerified hkeeps fun written node verified
    heq hverified => ?_⟩
  · have hold := hstatus nodeHash other
    rw [← (hprecedes.write write).nodes] at hget
    rw [overlay.write_isVerified]
    cases write with
    | putNode written node verified =>
        rw [InMemoryStore.write, InMemoryStore.getNode_putNode] at hget
        rw [InMemoryStore.write, InMemoryStore.isVerified_putNode, overlay.caches_putNode,
          Overlay.write, withCache, PendingCache.mem_verified_putNode]
        by_cases heq : nodeHash = hash node
        · subst heq
          rw [if_pos rfl, Option.some.injEq] at hget
          subst hget
          rw [if_pos rfl]
          simp only [faithful, htype, ne_eq, not_true_eq_false, decide_false, Bool.or_false,
            Bool.and_eq_true, Bool.or_eq_true, Bool.not_eq_true'] at hfaithful
          cases verified with
          | true => simp
          | false =>
              have hunverified : overlay.isVerified (hash node) = false := by
                simpa using hfaithful.2
              have hnot := (overlay.isVerified_iff (hash node)).not.mp
                (by rw [hunverified]; exact Bool.false_ne_true)
              rw [not_or] at hnot
              simp [hnot.1, hnot.2]
        · rw [if_neg heq, hprecedes.nodes] at hget
          rw [if_neg heq, hold hget htype]
          simp [heq]
    | markVerified written marked =>
        rw [InMemoryStore.write, InMemoryStore.getNode_markVerified] at hget
        rw [InMemoryStore.write, InMemoryStore.isVerified_markVerified,
          overlay.caches_markVerified, Overlay.write, withCache,
          PendingCache.mem_verified_markVerified]
        by_cases heq : nodeHash = marked
        · subst heq
          rw [if_pos rfl, InMemoryStore.hasNode_eq, hget]
          simp only [Option.isSome_some, true_iff, or_true, and_true]
          rw [hprecedes.nodes] at hget
          -- Marking reaches a node of the store only if the overlay caches it or its type is not
          -- the one asked for.
          cases hcached : overlay.caches nodeHash with
          | true => exact .inr rfl
          | false =>
              rw [overlay.getNode_of_uncached hcached] at hget
              simp only [faithful, hcached, hget, Option.any_some, htype, decide_true,
                Bool.not_true, Bool.or_false, Bool.false_or] at hfaithful
              exact .inl hfaithful
        · rw [hprecedes.nodes] at hget
          rw [if_neg heq, hold hget htype]
          simp [heq]
    | _ => exact hold (hprecedes.nodes nodeHash ▸ hget) htype
  · subst heq
    simp only [faithful, hverified, Bool.not_true, Bool.false_or, Bool.and_eq_true] at hfaithful
    exact hfaithful.1

theorem write_getNodeHashesInRange {write : Write} {range : SyncRange}
    (htracks : overlay.Tracks direct (.getNodeHashesInRange conversationId range))
    (hfaithful : overlay.faithful (.getNodeHashesInRange conversationId range) write = true) :
    (overlay.write write).Tracks (direct.write write)
      (.getNodeHashesInRange conversationId range) := by
  obtain ⟨hstatus, hkeeps⟩ := htracks
  refine ⟨fun nodeHash other hget hcovers => ?_, write_keepsVerified hkeeps fun written node
    verified heq hverified => ?_⟩
  · have hold := hstatus nodeHash other
    rw [← (hprecedes.write write).nodes] at hget
    rw [overlay.write_isVerified]
    cases write with
    | putNode written node verified =>
        rw [InMemoryStore.write, InMemoryStore.getNode_putNode] at hget
        rw [InMemoryStore.write, InMemoryStore.isVerified_putNode, overlay.caches_putNode]
        by_cases heq : nodeHash = hash node
        · subst heq
          rw [if_pos rfl, Option.some.injEq] at hget
          subst hget
          simp only [faithful, hcovers, Bool.not_true, Bool.or_false, Bool.and_eq_true]
            at hfaithful
          simp [hfaithful.2]
        · rw [if_neg heq, hprecedes.nodes] at hget
          rw [if_neg heq, hold hget hcovers]
          simp [heq]
    | markVerified written marked =>
        rw [InMemoryStore.write, InMemoryStore.getNode_markVerified] at hget
        rw [InMemoryStore.write, InMemoryStore.isVerified_markVerified,
          overlay.caches_markVerified]
        by_cases heq : nodeHash = marked
        · subst heq
          rw [if_pos rfl, InMemoryStore.hasNode_eq, hget]
          simp only [Option.isSome_some, true_iff]
          rw [hprecedes.nodes] at hget
          cases hcached : overlay.caches nodeHash with
          | true => exact .inr rfl
          | false =>
              rw [overlay.getNode_of_uncached hcached] at hget
              simp only [faithful, hcached, hget, Option.any_some, hcovers, Bool.not_true,
                Bool.or_false, Bool.false_or] at hfaithful
              exact .inl hfaithful
        · rw [hprecedes.nodes] at hget
          rw [if_neg heq, hold hget hcovers]
    | _ => exact hold (hprecedes.nodes nodeHash ▸ hget) hcovers
  · subst heq
    simp only [faithful, hverified, Bool.not_true, Bool.false_or, Bool.and_eq_true] at hfaithful
    exact hfaithful.1

theorem write_getSpeculativeNodes {write : Write}
    (htracks : overlay.Tracks direct (.getSpeculativeNodes conversationId))
    (hfaithful : overlay.faithful (.getSpeculativeNodes conversationId) write = true) :
    (overlay.write write).Tracks (direct.write write) (.getSpeculativeNodes conversationId) := by
  obtain ⟨hstatus, hcontent⟩ := htracks
  -- Two halves: whether a known node is verified, and that a node cached over a stored one is the
  -- same.
  refine ⟨fun nodeHash hhas => ?_, fun nodeHash other stored hnew hunverified hstored hget => ?_⟩
  · have hold := hstatus nodeHash
    rw [← (hprecedes.write write).hasNode] at hhas
    rw [overlay.write_isVerified]
    cases write with
    | putNode written node verified =>
        rw [InMemoryStore.write, InMemoryStore.hasNode_eq, InMemoryStore.getNode_putNode] at hhas
        rw [InMemoryStore.write, InMemoryStore.isVerified_putNode, overlay.caches_putNode,
          Overlay.write, withCache, PendingCache.mem_verified_putNode]
        by_cases heq : nodeHash = hash node
        · subst heq
          rw [if_pos rfl]
          cases verified with
          | true => simp
          | false =>
              simp only [faithful, Bool.false_or, Bool.and_eq_true, Bool.not_eq_true',
                List.contains_eq_mem, decide_eq_false_iff_not] at hfaithful
              simp [hfaithful.1]
        · rw [if_neg heq, ← InMemoryStore.hasNode_eq, hprecedes.hasNode] at hhas
          rw [if_neg heq, hold hhas]
          simp [heq]
    | markVerified written marked =>
        rw [InMemoryStore.write, InMemoryStore.hasNode_eq, InMemoryStore.getNode_markVerified,
          ← InMemoryStore.hasNode_eq] at hhas
        rw [InMemoryStore.write, InMemoryStore.isVerified_markVerified,
          overlay.caches_markVerified, Overlay.write, withCache,
          PendingCache.mem_verified_markVerified]
        by_cases heq : nodeHash = marked
        · simp [heq, heq ▸ hhas]
        · rw [hprecedes.hasNode] at hhas
          rw [if_neg heq, hold hhas]
          simp [heq]
    | _ => exact hold (hprecedes.hasNode nodeHash ▸ hhas)
  · rw [overlay.write_isVerified] at hunverified
    rw [overlay.write_getNode] at hstored
    have hold := hcontent nodeHash other stored
    cases write with
    | putNode written node verified =>
        have hcase := (overlay.cache.nodes_putNode written node verified nodeHash).symm.trans hget
        rw [Overlay.write, withCache, PendingCache.mem_verified_putNode, not_or] at hnew
        split at hcase
        next heq =>
          cases hcase
          subst heq
          have hspeculative : verified = false := by simpa using hnew.2
          subst hspeculative
          have hhas : overlay.store.hasNode (hash other) = true := by
            rw [InMemoryStore.hasNode_eq, hstored]
            rfl
          simp only [faithful, hhas, hunverified, Bool.false_or, Bool.and_eq_true, Bool.not_true,
            stores, hstored, decide_eq_true_eq, Option.some.injEq] at hfaithful
          exact hfaithful.2
        next => exact hold hnew.1 hunverified hstored hcase
    | markVerified written marked =>
        have hnodes := overlay.cache.nodes_markVerified written marked
        rw [Overlay.write, withCache, PendingCache.mem_verified_markVerified, not_or] at hnew
        exact hold hnew.1 hunverified hstored (hnodes ▸ hget)
    | _ => exact hold hnew hunverified hstored hget

theorem write_getOpaqueNodeHashes {write : Write}
    (htracks : overlay.Tracks direct (.getOpaqueNodeHashes conversationId))
    (hfaithful : overlay.faithful (.getOpaqueNodeHashes conversationId) write = true) :
    (overlay.write write).Tracks (direct.write write) (.getOpaqueNodeHashes conversationId) := by
  intro nodeHash
  have hold := htracks nodeHash
  cases write with
  | putNode written node verified =>
      have hwires : (overlay.cache.putNode written node verified).wireNodes =
          overlay.cache.wireNodes := by
        cases verified <;> rfl
      have hcaches : (overlay.write (.putNode written node verified)).caches nodeHash = false ↔
          overlay.caches nodeHash = false ∧ nodeHash ≠ hash node := by
        rw [← Bool.not_eq_true, overlay.caches_putNode, not_or, Bool.not_eq_true]
      rw [InMemoryStore.write, InMemoryStore.opaqueNodes_putNode,
        hprecedes.written.opaqueNodup.mem_erase_iff, hold, hcaches]
      simp only [Overlay.write, withCache, hwires]
      rw [and_left_comm, and_assoc]
  | markVerified written marked =>
      obtain ⟨seqs, hdirect⟩ := direct.markVerified_frame marked
      obtain ⟨seqs', hcache⟩ := overlay.cache.markVerified_frame written marked
      rw [overlay.caches_markVerified]
      simp only [InMemoryStore.write, Overlay.write, withCache, hdirect, hcache]
      exact hold
  | setHeads => exact hold
  | setAdminHeads => exact hold
  | putWireNode written wired wire =>
      have hdirect : (direct.putWireNode written wired wire).opaqueNodes =
          if direct.hasNode wired then direct.opaqueNodes
          else insertOnce direct.opaqueNodes wired := rfl
      have hcaches : (overlay.write (.putWireNode written wired wire)).caches nodeHash =
          overlay.caches nodeHash := rfl
      rw [InMemoryStore.write, hdirect, hcaches]
      simp only [Overlay.write, withCache, AssocMap.get_insert]
      simp only [faithful, Bool.or_eq_true] at hfaithful
      -- The store forgets a node that it has; the overlay lists the wire form unless it caches
      -- the node.
      by_cases heq : nodeHash = wired
      · subst heq
        rw [if_pos rfl]
        have hdirectHas : direct.hasNode nodeHash =
            (overlay.caches nodeHash || overlay.store.hasNode nodeHash) :=
          hprecedes.hasNode nodeHash
        cases hcached : overlay.caches nodeHash with
        | true =>
            rw [hcached, Bool.true_or] at hdirectHas
            rw [if_pos hdirectHas, hold, hcached]
            simp
        | false =>
            have hlisted := hfaithful.resolve_left (by rw [hcached]; exact Bool.false_ne_true)
            rw [hcached, Bool.false_or] at hdirectHas
            cases hstored : overlay.store.hasNode nodeHash with
            | true =>
                -- a stored node is opaque in neither store
                rw [hstored] at hdirectHas hlisted
                have hother : written ≠ conversationId := by simpa using hlisted
                have hfresh : nodeHash ∉ direct.opaqueNodes := fun hmem => by
                  have habsent := hprecedes.written.opaqueAbsent nodeHash hmem
                  rw [hdirectHas] at habsent
                  cases habsent
                have hfresh' : nodeHash ∉ overlay.store.opaqueNodes := fun hmem => by
                  have habsent := hprecedes.stored.opaqueAbsent nodeHash hmem
                  rw [hstored] at habsent
                  cases habsent
                rw [if_pos hdirectHas]
                simp [hfresh, hfresh', hother]
            | false =>
                rw [hstored] at hdirectHas hlisted
                have hlisted : written = conversationId ∨ nodeHash ∈ overlay.store.opaqueNodes := by
                  simpa using hlisted
                rw [if_neg (by rw [hdirectHas]; exact Bool.false_ne_true), mem_insertOnce]
                rcases hlisted with rfl | hlisted
                · simp
                · simp [hlisted]
      · rw [if_neg heq, ← hold]
        split
        next => rfl
        next => rw [mem_insertOnce, or_iff_left heq]
  | removeWireNode written removed =>
      have hdirect : (direct.removeWireNode removed).opaqueNodes =
          direct.opaqueNodes.erase removed := rfl
      have hstored : (overlay.store.removeWireNode removed).opaqueNodes =
          overlay.store.opaqueNodes.erase removed := rfl
      have hcaches : (overlay.write (.removeWireNode written removed)).caches nodeHash =
          overlay.caches nodeHash := rfl
      rw [InMemoryStore.write, hdirect, hprecedes.written.opaqueNodup.mem_erase_iff, hold, hcaches]
      simp only [Overlay.write]
      rw [hstored, hprecedes.stored.opaqueNodup.mem_erase_iff]
      by_cases heq : nodeHash = removed
      · subst heq
        simp [AssocMap.get_erase_self]
      · simp [heq, AssocMap.get_erase_of_ne]

/-- A write that a read keeps up with leaves the read what it rests on. -/
theorem write {write : Write} {read : Read} (htracks : overlay.Tracks direct read)
    (hfaithful : overlay.faithful read write = true) :
    (overlay.write write).Tracks (direct.write write) read := by
  cases read with
  | isVerified => exact write_isVerified hprecedes htracks hfaithful
  | hasChildren => exact write_hasChildren htracks hfaithful
  | getLastSequenceNumber => exact write_getLastSequenceNumber hprecedes htracks hfaithful
  | getNodeCounts => exact write_getNodeCounts hprecedes htracks hfaithful
  | getVerifiedNodesByType => exact write_getVerifiedNodesByType hprecedes htracks hfaithful
  | getNodeHashesInRange => exact write_getNodeHashesInRange hprecedes htracks hfaithful
  | getSpeculativeNodes => exact write_getSpeculativeNodes hprecedes htracks hfaithful
  | getOpaqueNodeHashes => exact write_getOpaqueNodeHashes hprecedes htracks hfaithful
  | _ => trivial

end

end Overlay.Tracks

end Simulation

end MerkleTox.Core
