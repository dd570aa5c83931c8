import MerkleTox.Core.OverlayTracking
import MerkleTox.Core.Reference

/-! # Reads through the overlay

Every read agrees with the same read on the store that has seen the writes, in every
sequence of writes that the read keeps up with.
-/

namespace MerkleTox.Core

open Library Proto

section Simulation

variable [Primitives] {overlay : Overlay} {direct : InMemoryStore}

namespace Overlay.Tracks

/-! ## The reads -/

variable {conversationId : ConversationId}

section

variable (hprecedes : overlay.Precedes direct)
include hprecedes

theorem counts (htracks : overlay.Tracks direct (.getNodeCounts conversationId)) :
    overlay.getNodeCounts = direct.getNodeCounts := by
  have hstatus : ∀ nodeHash, _ := htracks
  -- The overlay counts the nodes of the store and those of the cache that the store does not
  -- have; together these are the nodes of the direct store, each once.
  have hverified : ((overlay.store.nodes.entries.filter fun entry => entry.2.verified).map
      Prod.fst ++ overlay.cache.nodes.keys.filter fun hash =>
        !overlay.store.hasNode hash && overlay.cache.verified.contains hash).Perm
      ((direct.nodes.entries.filter fun entry => entry.2.verified).map Prod.fst) := by
    rw [AssocMap.filter_keys]
    refine (List.perm_ext_iff_of_nodup ?_ (direct.nodes.nodup_keysWhere _)).mpr fun nodeHash => ?_
    · refine List.Nodup.append (overlay.store.nodes.nodup_keysWhere _)
        (overlay.cache.nodes.nodup_keysWhere _) fun nodeHash hstored hcached => ?_
      rw [InMemoryStore.mem_verifiedKeys] at hstored
      obtain ⟨node, -, htest⟩ := AssocMap.mem_keysWhere.mp hcached
      simp [overlay.store.hasNode_of_isVerified hstored] at htest
    · rw [List.mem_append, InMemoryStore.mem_verifiedKeys, InMemoryStore.mem_verifiedKeys,
        AssocMap.mem_keysWhere, hstatus nodeHash, Overlay.caches_eq, Option.isSome_iff_exists]
      simp only [Bool.and_eq_true, Bool.not_eq_true', List.contains_iff_mem, exists_and_right]
  have hspeculative : ((overlay.store.nodes.entries.filter fun entry => !entry.2.verified).map
      Prod.fst ++ overlay.cache.nodes.keys.filter fun hash =>
        !overlay.store.hasNode hash && !overlay.cache.verified.contains hash).Perm
      ((direct.nodes.entries.filter fun entry => !entry.2.verified).map Prod.fst) := by
    rw [AssocMap.filter_keys]
    refine (List.perm_ext_iff_of_nodup ?_ (direct.nodes.nodup_keysWhere _)).mpr fun nodeHash => ?_
    · refine List.Nodup.append (overlay.store.nodes.nodup_keysWhere _)
        (overlay.cache.nodes.nodup_keysWhere _) fun nodeHash hstored hcached => ?_
      rw [InMemoryStore.mem_speculativeKeys] at hstored
      obtain ⟨node, -, htest⟩ := AssocMap.mem_keysWhere.mp hcached
      simp [hstored.1] at htest
    · have hunverified := (hstatus nodeHash).not
      have hstored : overlay.store.isVerified nodeHash = true →
          overlay.store.hasNode nodeHash = true := overlay.store.hasNode_of_isVerified
      have hcaches : (∃ node, overlay.cache.nodes.get nodeHash = some node) ↔
          overlay.caches nodeHash = true := by
        rw [Overlay.caches_eq, Option.isSome_iff_exists]
      rw [Bool.not_eq_true, not_or, Bool.not_eq_true] at hunverified
      rw [List.mem_append, InMemoryStore.mem_speculativeKeys, InMemoryStore.mem_speculativeKeys,
        AssocMap.mem_keysWhere, hunverified, hprecedes.hasNode]
      simp only [exists_and_right, hcaches, Overlay.hasNode, Bool.or_eq_true, Bool.and_eq_true,
        Bool.not_eq_true', List.contains_eq_mem, decide_eq_false_iff_not]
      change _ ↔ (overlay.caches nodeHash = true ∨ _) ∧ _
      cases hhas : overlay.store.hasNode nodeHash with
      | true => simp
      | false =>
          have hnot : overlay.store.isVerified nodeHash = false :=
            Bool.eq_false_iff.mpr fun h => by rw [hstored h] at hhas; cases hhas
          simp only [hnot, Bool.false_eq_true, false_and, or_false, true_and, false_or]
          exact ⟨fun h => ⟨h.1, fun h' => h.2 h'.2⟩, fun h => ⟨h.1, fun h' => h.2 ⟨h.1, h'⟩⟩⟩
  rw [direct.getNodeCounts_eq, ← hverified.length_eq, ← hspeculative.length_eq]
  simp only [Overlay.getNodeCounts, Overlay.speculativeCount, AssocMap.filter_values,
    List.length_append, List.length_map]

/-- Stored hashes, and cached ones that are not among them. -/
theorem nodup_merged {stored : List MerkleNode} {test : NodeHash × MerkleNode → Bool}
    (hstored : (stored.map hash).Nodup)
    (hnew : ∀ nodeHash node, test (nodeHash, node) = true → nodeHash ∉ stored.map hash) :
    (stored ++ (overlay.cache.nodes.entries.filter test).map Prod.snd).Nodup := by
  refine List.Nodup.of_map hash ?_
  rw [List.map_append, hprecedes.hashes_cached]
  refine List.Nodup.append hstored (overlay.cache.nodes.nodup_keysWhere _)
    fun nodeHash hmem hcached => ?_
  obtain ⟨node, -, htest⟩ := AssocMap.mem_keysWhere.mp hcached
  exact hnew nodeHash node htest hmem

theorem verifiedNodes {nodeType : NodeType}
    (htracks : overlay.Tracks direct (.getVerifiedNodesByType conversationId nodeType)) :
    (overlay.store.getVerifiedNodesByType nodeType ++
      (overlay.cache.nodes.entries.filter fun entry =>
        overlay.cache.verified.contains entry.1 && entry.2.nodeType = nodeType &&
          !(overlay.store.getVerifiedNodesByType nodeType).any fun node =>
            hash node = entry.1).map Prod.snd).Perm
      (direct.getVerifiedNodesByType nodeType) := by
  obtain ⟨hstatus, hkeeps⟩ := htracks
  have hlisted : ∀ nodeHash,
      ((overlay.store.getVerifiedNodesByType nodeType).any fun node => hash node = nodeHash) =
        true ↔ nodeHash ∈ (overlay.store.getVerifiedNodesByType nodeType).map hash := by
    intro nodeHash
    simp only [List.any_eq_true, decide_eq_true_eq, List.mem_map]
  refine (List.perm_ext_iff_of_nodup (nodup_merged hprecedes
    (hprecedes.stored.nodup_getVerifiedNodesByType nodeType) fun nodeHash node htest => ?_)
    (List.Nodup.of_map hash
      (hprecedes.written.nodup_getVerifiedNodesByType nodeType))).mpr fun node => ?_
  · rw [Bool.and_eq_true, Bool.not_eq_true', ← Bool.not_eq_true, hlisted] at htest
    exact htest.2
  · rw [List.mem_append, hprecedes.mem_cached, hprecedes.stored.mem_getVerifiedNodesByType,
      hprecedes.written.mem_getVerifiedNodesByType, hprecedes.nodes]
    simp only [Bool.and_eq_true, List.contains_iff_mem, decide_eq_true_eq, Bool.not_eq_true']
    constructor
    · rintro (⟨hget, hverified, htype⟩ | ⟨hget, ⟨hmarked, htype⟩, -⟩)
      · -- A stored node that is cached too is cached as it is.
        have hoverlay : overlay.getNode (hash node) = some node := by
          rw [Overlay.getNode]
          cases hcached : overlay.cache.nodes.get (hash node) with
          | none => exact hget
          | some other =>
              have hsame := hkeeps _ _ hverified hcached
              rw [hget] at hsame
              exact hsame.symm
        exact ⟨hoverlay, (hstatus _ _ hoverlay htype).mpr (.inl hverified), htype⟩
      · have hoverlay := overlay.getNode_of_cached hget
        refine ⟨hoverlay, (hstatus _ _ hoverlay htype).mpr (.inr ⟨?_, hmarked⟩), htype⟩
        rw [Overlay.caches_eq, hget]
        rfl
    · rintro ⟨hoverlay, hverified, htype⟩
      cases hcached : overlay.cache.nodes.get (hash node) with
      | none =>
          rw [Overlay.getNode, hcached, Option.none_or] at hoverlay
          have hstored := (hstatus (hash node) node
            (by rw [Overlay.getNode, hcached, Option.none_or, hoverlay]) htype).mp hverified
          rw [Overlay.caches_eq, hcached] at hstored
          exact .inl ⟨hoverlay, hstored.resolve_right (fun h => Bool.noConfusion h.1), htype⟩
      | some other =>
          rw [overlay.getNode_of_cached hcached, Option.some.injEq] at hoverlay
          subst hoverlay
          rcases (hstatus _ _ (overlay.getNode_of_cached hcached) htype).mp hverified with
            hstored | ⟨-, hmarked⟩
          · exact .inl ⟨hkeeps _ _ hstored hcached, hstored, htype⟩
          · by_cases hlist : hash other ∈
                (overlay.store.getVerifiedNodesByType nodeType).map hash
            · obtain ⟨listed, hmem, hhash⟩ := List.mem_map.mp hlist
              rw [hprecedes.stored.mem_getVerifiedNodesByType, hhash] at hmem
              have hsame := hkeeps _ _ hmem.2.1 hcached
              exact .inl ⟨hsame, hmem.2.1, htype⟩
            · refine .inr ⟨rfl, ⟨hmarked, htype⟩, ?_⟩
              rw [← Bool.not_eq_true, hlisted]
              exact hlist

theorem hashesInRange {range : SyncRange}
    (htracks : overlay.Tracks direct (.getNodeHashesInRange conversationId range)) :
    (overlay.getNodeHashesInRange range).Perm (direct.getNodeHashesInRange range) := by
  obtain ⟨hstatus, hkeeps⟩ := htracks
  unfold Overlay.getNodeHashesInRange
  refine (List.perm_ext_iff_of_nodup ?_
    (hprecedes.written.nodup_getNodeHashesInRange range)).mpr fun nodeHash => ?_
  · refine List.Nodup.append (hprecedes.stored.nodup_getNodeHashesInRange range)
      (overlay.cache.nodes.nodup_keysWhere _) fun nodeHash hmem hcached => ?_
    obtain ⟨node, -, htest⟩ := AssocMap.mem_keysWhere.mp hcached
    rw [Bool.and_eq_true, Bool.not_eq_true', ← Bool.not_eq_true, List.contains_iff_mem] at htest
    exact htest.2 hmem
  · rw [List.mem_append, hprecedes.written.mem_getNodeHashesInRange, AssocMap.mem_keysWhere,
      hprecedes.nodes]
    simp only [Bool.and_eq_true, Bool.not_eq_true', List.contains_eq_mem,
      decide_eq_false_iff_not]
    constructor
    · rintro (hstored | ⟨node, hcached, hcovers, -⟩)
      · obtain ⟨hverified, node, hget, hcovers⟩ :=
          hprecedes.stored.mem_getNodeHashesInRange.mp hstored
        have hoverlay : overlay.getNode nodeHash = some node := by
          rw [Overlay.getNode]
          cases hcached : overlay.cache.nodes.get nodeHash with
          | none => exact hget
          | some other =>
              have hsame := hkeeps _ _ hverified hcached
              rw [hget] at hsame
              exact hsame.symm
        exact ⟨(hstatus _ _ hoverlay hcovers).mpr (.inl hverified), node, hoverlay, hcovers⟩
      · have hoverlay := overlay.getNode_of_cached hcached
        refine ⟨(hstatus _ _ hoverlay hcovers).mpr (.inr ?_), node, hoverlay, hcovers⟩
        rw [Overlay.caches_eq, hcached]
        rfl
    · rintro ⟨hverified, node, hoverlay, hcovers⟩
      by_cases hlisted : nodeHash ∈ overlay.store.getNodeHashesInRange range
      · exact .inl hlisted
      · -- It is verified in the store and then listed, or it is cached.
        rcases (hstatus _ _ hoverlay hcovers).mp hverified with hstored | hcached
        · rw [hprecedes.stored.mem_getNodeHashesInRange] at hlisted
          refine absurd ⟨hstored, node, ?_, hcovers⟩ hlisted
          rw [Overlay.getNode] at hoverlay
          cases hcached : overlay.cache.nodes.get nodeHash with
          | none =>
              rw [hcached] at hoverlay
              exact hoverlay
          | some other =>
              rw [hcached] at hoverlay
              cases hoverlay
              exact hkeeps _ _ hstored hcached
        · rw [Overlay.caches_eq, Option.isSome_iff_exists] at hcached
          obtain ⟨other, hcached⟩ := hcached
          rw [overlay.getNode_of_cached hcached] at hoverlay
          cases hoverlay
          exact .inr ⟨node, hcached, hcovers, hlisted⟩

theorem speculativeNodes (htracks : overlay.Tracks direct (.getSpeculativeNodes conversationId)) :
    overlay.getSpeculativeNodes.Perm direct.getSpeculativeNodes := by
  obtain ⟨hstatus, hcontent⟩ := htracks
  have hnodup : ∀ {store : InMemoryStore}, store.WellFormed →
      (store.getSpeculativeNodes.map hash).Nodup := by
    intro store hstore
    rw [hstore.hashes_getSpeculativeNodes]
    exact hstore.speculativeNodup
  unfold Overlay.getSpeculativeNodes
  refine (List.perm_ext_iff_of_nodup (nodup_merged hprecedes
    ((hnodup hprecedes.stored).sublist (List.filter_sublist.map _)) fun nodeHash node htest => ?_)
    (List.Nodup.of_map hash (hnodup hprecedes.written))).mpr fun node => ?_
  · rw [Bool.and_eq_true, Bool.not_eq_true', Bool.not_eq_true', List.contains_eq_mem,
      List.contains_eq_mem, decide_eq_false_iff_not, decide_eq_false_iff_not] at htest
    exact htest.2
  · rw [List.mem_append, hprecedes.mem_cached, List.mem_filter,
      hprecedes.stored.mem_getSpeculativeNodes, hprecedes.written.mem_getSpeculativeNodes,
      hprecedes.nodes]
    simp only [Bool.and_eq_true, Bool.not_eq_true', List.contains_eq_mem,
      decide_eq_false_iff_not]
    have hhas : ∀ {node}, overlay.getNode (hash node) = some node →
        overlay.hasNode (hash node) = true := by
      intro node hget
      rw [Overlay.hasNode_eq, hget]
      rfl
    constructor
    · rintro (⟨⟨hget, hunverified⟩, hnew⟩ | ⟨hcached, hnew, -⟩)
      · -- A stored node that is cached too is cached as it is.
        have hoverlay : overlay.getNode (hash node) = some node := by
          rw [Overlay.getNode]
          cases hcached : overlay.cache.nodes.get (hash node) with
          | none => exact hget
          | some other =>
              exact congrArg some (hcontent _ _ _ hnew hunverified hget hcached).symm
        exact ⟨hoverlay, (hstatus _ (hhas hoverlay)).mpr ⟨hnew, .inl hunverified⟩⟩
      · have hoverlay := overlay.getNode_of_cached hcached
        refine ⟨hoverlay, (hstatus _ (hhas hoverlay)).mpr ⟨hnew, .inr ?_⟩⟩
        rw [Overlay.caches_eq, hcached]
        rfl
    · rintro ⟨hoverlay, hunverified⟩
      obtain ⟨hnew, hspeculative⟩ := (hstatus _ (hhas hoverlay)).mp hunverified
      cases hcached : overlay.cache.nodes.get (hash node) with
      | none =>
          rw [Overlay.getNode, hcached, Option.none_or] at hoverlay
          rw [Overlay.caches_eq, hcached] at hspeculative
          exact .inl ⟨⟨hoverlay, hspeculative.resolve_right (by rintro ⟨⟩)⟩, hnew⟩
      | some other =>
          rw [overlay.getNode_of_cached hcached, Option.some.injEq] at hoverlay
          subst hoverlay
          by_cases hlisted : hash other ∈ (overlay.store.getSpeculativeNodes.filter fun node =>
              !overlay.cache.verified.contains (hash node)).map hash
          · obtain ⟨listed, hmem, hhash⟩ := List.mem_map.mp hlisted
            rw [List.mem_filter, hprecedes.stored.mem_getSpeculativeNodes, hhash] at hmem
            have hsame := hcontent _ _ _ hnew hmem.1.2 hmem.1.1 hcached
            subst hsame
            exact .inl ⟨hmem.1, hnew⟩
          · refine .inr ⟨rfl, hnew, ?_⟩
            simpa only [List.contains_eq_mem] using hlisted

theorem opaqueHashes (htracks : overlay.Tracks direct (.getOpaqueNodeHashes conversationId)) :
    (overlay.getOpaqueNodeHashes conversationId).Perm direct.opaqueNodes := by
  have hquarantine : ∀ nodeHash, _ := htracks
  unfold Overlay.getOpaqueNodeHashes
  refine (List.perm_ext_iff_of_nodup ?_ hprecedes.written.opaqueNodup).mpr fun nodeHash => ?_
  · refine List.Nodup.append (hprecedes.stored.opaqueNodup.filter _)
      (overlay.cache.wireNodes.nodup_keysWhere _) fun nodeHash hmem hcached => ?_
    obtain ⟨entry, -, htest⟩ := AssocMap.mem_keysWhere.mp hcached
    rw [Bool.and_eq_true, Bool.not_eq_true', List.contains_eq_mem,
      decide_eq_false_iff_not] at htest
    exact htest.2 hmem
  · rw [List.mem_append, AssocMap.mem_keysWhere, List.mem_filter, hquarantine nodeHash]
    change (_ ∧ (!overlay.caches nodeHash) = true) ∨ _ ↔ _
    simp only [Bool.and_eq_true, Bool.not_eq_true', List.contains_eq_mem, decide_eq_true_eq,
      decide_eq_false_iff_not, Prod.exists]
    constructor
    · rintro (⟨hstored, hnew⟩ | ⟨written, wire, hget, ⟨rfl, hnew⟩, -⟩)
      · exact ⟨hnew, .inl hstored⟩
      · exact ⟨hnew, .inr ⟨wire, hget⟩⟩
    · rintro ⟨hnew, hlisted⟩
      by_cases hstored : nodeHash ∈ overlay.store.opaqueNodes
      · exact .inl ⟨hstored, hnew⟩
      · obtain ⟨wire, hget⟩ := hlisted.resolve_left hstored
        refine .inr ⟨conversationId, wire, hget, ⟨rfl, hnew⟩, fun hmem => ?_⟩
        exact hstored (List.mem_of_mem_filter hmem)

/-- A read that rests on what it should agrees with the read on the store. -/
theorem agrees {read : Read} (htracks : overlay.Tracks direct read) :
    (overlay.read read).Agrees (direct.read read) := by
  cases read with
  | getNode nodeHash =>
      have hsame := hprecedes.nodes nodeHash
      simp only [Overlay.read, InMemoryStore.read, hsame]
      exact .refl _
  | hasNode nodeHash =>
      have hsame := hprecedes.hasNode nodeHash
      simp only [Overlay.read, InMemoryStore.read, hsame]
      exact .refl _
  | isVerified nodeHash =>
      have hsame : direct.isVerified nodeHash = overlay.isVerified nodeHash := htracks
      simp only [Overlay.read, InMemoryStore.read, hsame]
      exact .refl _
  | hasChildren nodeHash =>
      have hsame : direct.hasChildren nodeHash = overlay.hasChildren nodeHash := htracks
      simp only [Overlay.read, InMemoryStore.read, hsame]
      exact .refl _
  | getHeads conversationId =>
      simp only [Overlay.read, InMemoryStore.read, hprecedes.heads]
      exact .refl _
  | getAdminHeads conversationId =>
      simp only [Overlay.read, InMemoryStore.read, hprecedes.adminHeads]
      exact .refl _
  | getNodeCounts conversationId =>
      simp only [Overlay.read, InMemoryStore.read, counts hprecedes htracks]
      exact .refl _
  | getLastSequenceNumber conversationId senderPk =>
      have hsame : direct.getLastSequenceNumber senderPk =
          overlay.getLastSequenceNumber conversationId senderPk := htracks
      simp only [Overlay.read, InMemoryStore.read, hsame]
      exact .refl _
  | getVerifiedNodesByType conversationId nodeType =>
      have hperm := verifiedNodes hprecedes htracks
      exact .ranked ((List.perm_insertionSort _ _).trans hperm)
        (map_sortByKey_of_perm _ (hperm.trans (List.perm_insertionSort _ _)))
  | getNodeHashesInRange conversationId range => exact .hashes (hashesInRange hprecedes htracks)
  | getSpeculativeNodes conversationId => exact .nodes (speculativeNodes hprecedes htracks)
  | getOpaqueNodeHashes conversationId => exact .hashes (opaqueHashes hprecedes htracks)

end

end Overlay.Tracks

/-- Along writes that a read keeps up with the store stays ahead of the overlay, and the
read keeps what it rests on. -/
theorem Overlay.Precedes.writeAll {writes : List Write} {read : Read}
    (hprecedes : overlay.Precedes direct) (htracks : overlay.Tracks direct read)
    (hfaithful : overlay.faithfulAll read writes = true) :
    (overlay.writeAll writes).Precedes (direct.writeAll writes) ∧
      (overlay.writeAll writes).Tracks (direct.writeAll writes) read := by
  induction writes generalizing overlay direct with
  | nil => exact ⟨hprecedes, htracks⟩
  | cons write rest ih =>
      rw [Overlay.faithfulAll, Bool.and_eq_true] at hfaithful
      exact ih (hprecedes.write write) (htracks.write hprecedes hfaithful.1) hfaithful.2

/-- A read through the overlay agrees with the read on the store that has seen the writes,
for every content of the store, as long as the read keeps up with each of the writes. -/
theorem overlay_reads_agree (earlier writes : List Write) (read : Read)
    (hfaithful : Overlay.faithfulAll ⟨InMemoryStore.new.writeAll earlier, .new⟩ read writes =
      true) :
    ((Overlay.writeAll ⟨InMemoryStore.new.writeAll earlier, .new⟩ writes).read read).Agrees
      (((InMemoryStore.new.writeAll earlier).writeAll writes).read read) := by
  obtain ⟨hprecedes, htracks⟩ := (Overlay.Precedes.refl
    (InMemoryStore.WellFormed.new.writeAll earlier)).writeAll (Overlay.Tracks.refl _ read)
      hfaithful
  exact htracks.agrees hprecedes

end Simulation

namespace OverlayReads

/-! ## Writes out of order -/

open Reference

/-- A text of the founder. -/
def text (seq : Nat) : MerkleNode :=
  { genesis with
      sequenceNumber := seq
      content := .text "hello" }

/-- Two verified nodes in the order of their sequence numbers. -/
theorem overlay_reads_agree_in_order :
    ((Overlay.writeAll ⟨InMemoryStore.new.writeAll [.putNode room genesis true], .new⟩
      [.putNode room (text 2) true, .putNode room (text 3) true]).read
        (.getLastSequenceNumber room ⟨1⟩)).Agrees
      (((InMemoryStore.new.writeAll [.putNode room genesis true]).writeAll
        [.putNode room (text 2) true, .putNode room (text 3) true]).read
          (.getLastSequenceNumber room ⟨1⟩)) :=
  overlay_reads_agree _ _ _ (by decide +kernel)

/-- In the other order the overlay takes the last number for the highest. -/
theorem overlay_sequence_sinks :
    ¬ ((Overlay.writeAll ⟨InMemoryStore.new.writeAll [.putNode room genesis true], .new⟩
      [.putNode room (text 3) true, .putNode room (text 2) true]).read
        (.getLastSequenceNumber room ⟨1⟩)).Agrees
      (((InMemoryStore.new.writeAll [.putNode room genesis true]).writeAll
        [.putNode room (text 3) true, .putNode room (text 2) true]).read
          (.getLastSequenceNumber room ⟨1⟩)) := by
  have hoverlay : (Overlay.writeAll ⟨InMemoryStore.new.writeAll [.putNode room genesis true], .new⟩
      [.putNode room (text 3) true, .putNode room (text 2) true]).getLastSequenceNumber room
        ⟨1⟩ = 2 := by decide +kernel
  have hdirect : ((InMemoryStore.new.writeAll [.putNode room genesis true]).writeAll
      [.putNode room (text 3) true, .putNode room (text 2) true]).getLastSequenceNumber ⟨1⟩ =
        3 := by decide +kernel
  rw [Overlay.read, InMemoryStore.read, hoverlay, hdirect]
  exact fun h => nomatch h

end OverlayReads

end MerkleTox.Core
