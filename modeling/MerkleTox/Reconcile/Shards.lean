import MerkleTox.Reconcile.Session

/-! # Shard checksums

Peers compare the checksums of ranges of ranks. Each side computes them up to the highest of
its heads, which are those of the content track: nodes of the admin track that rank above the
heads may be in no shard, and then no checksum tells them.
-/

namespace MerkleTox.Reconcile

open MerkleTox.Core Library

variable {nodeHash head : NodeHash} {rank last : Nat} {report : List SyncRange} {node : MerkleNode}

structure ShardHash where
  bytes : Bytes32
  deriving DecidableEq, Repr

/-- BLAKE3 of the concatenated hashes. -/
class ShardDigest where
  digest : List NodeHash → ShardHash

/-- `SHARD_SIZE`. -/
def shardSize : Nat := 1000

def sortHashes (hashes : List NodeHash) : List NodeHash :=
  hashes.insertionSort fun first second => first.bytes.toNat ≤ second.bytes.toNat

section Code

variable [Primitives] [ShardDigest]
variable (overlay : Overlay) (conversationId : ConversationId)

/-- The highest rank of the heads. -/
def maxHeadRank : Nat :=
  ((overlay.getHeads conversationId).filterMap overlay.getRank).foldl max 0

/-- One shard from its first rank; `none` is an overflow. -/
def makeShard (startRank : Nat) : Option (SyncRange × ShardHash) := do
  let stop ← addU64 startRank shardSize
  let range : SyncRange := ⟨startRank, stop - 1⟩
  pure (range, ShardDigest.digest (sortHashes (overlay.getNodeHashesInRange range)))

def makeSyncShardChecksums : Option (List (SyncRange × ShardHash)) :=
  ((List.range (maxHeadRank overlay conversationId / shardSize + 1)).map (· * shardSize)).mapM
    (makeShard overlay)

/-- The ranges of a peer whose checksums are others here, or are not computed here. -/
def handleSyncShardChecksums (remoteShards : List (SyncRange × ShardHash)) : Option
    (List SyncRange) := do
  let localShards ← makeSyncShardChecksums overlay conversationId
  pure ((remoteShards.filter fun remote =>
    match localShards.find? fun shard => shard.1 = remote.1 with
    | some shard => shard.2 ≠ remote.2
    | none => true).map Prod.fst)

end Code

/-! ## Replicas -/

/-- The store of one side, with nothing pending. A head is a node that was stored before it
became a head, verified or not. -/
structure Replica [Primitives] (conversationId : ConversationId) where
  store : InMemoryStore
  keyed : ∀ nodeHash node, store.getNode nodeHash = some node → Core.hash node = nodeHash
  headsStored : ∀ head ∈ (store.heads.get conversationId).getD [],
    (store.getNode head).isSome = true

namespace Replica

variable [Primitives] {conversationId : ConversationId}

def overlay (replica : Replica conversationId) : Overlay := ⟨replica.store, .new⟩

def heads (replica : Replica conversationId) : List NodeHash :=
  (replica.store.heads.get conversationId).getD []

def Holds (replica : Replica conversationId) (node : MerkleNode) : Prop :=
  replica.store.getNode (Core.hash node) = some node

/-- The node is stored and verified. -/
def Has (replica : Replica conversationId) (node : MerkleNode) : Prop :=
  replica.Holds node ∧ replica.store.isVerified (Core.hash node) = true

/-- No verified node ranks above the shard of the highest head, and the end of this shard is
a `u64`. -/
structure Covered (replica : Replica conversationId) : Prop where
  ranks : ∀ node, replica.Has node → node.topologicalRank / shardSize ≤
    maxHeadRank replica.overlay conversationId / shardSize
  fits : maxHeadRank replica.overlay conversationId / shardSize * shardSize + shardSize ≤ u64Max

/-- The node is verified on one side only. -/
def OnlyOne (left right : Replica conversationId) (node : MerkleNode) : Prop :=
  left.Has node ∧ ¬ right.Has node ∨ right.Has node ∧ ¬ left.Has node

/-- The shards of both sides cover their verified nodes; if the nodes differ one side reports
a range with the rank of a node that only one has; with the same nodes and the same heads
neither reports any. -/
def Reconciles [ShardDigest] (left right : Replica conversationId) : Prop :=
  ∃ leftShards rightShards leftReport rightReport,
    makeSyncShardChecksums left.overlay conversationId = some leftShards ∧
      makeSyncShardChecksums right.overlay conversationId = some rightShards ∧
      handleSyncShardChecksums left.overlay conversationId rightShards = some leftReport ∧
      handleSyncShardChecksums right.overlay conversationId leftShards = some rightReport ∧
      (∀ node, left.Has node →
        ∃ shard ∈ leftShards, shard.1.includes node.topologicalRank = true) ∧
      (∀ node, right.Has node →
        ∃ shard ∈ rightShards, shard.1.includes node.topologicalRank = true) ∧
      ((∃ node, OnlyOne left right node) → ∃ range ∈ leftReport ++ rightReport,
        ∃ node, OnlyOne left right node ∧ range.includes node.topologicalRank = true) ∧
      ((∀ node, left.Has node ↔ right.Has node) →
        (∀ head, head ∈ left.heads ↔ head ∈ right.heads) → leftReport = [] ∧ rightReport = [])

variable {left right replica : Replica conversationId}

/-! ## What the shards hold -/

theorem mem_getNodeHashesInRange {range : SyncRange} :
    nodeHash ∈ replica.store.getNodeHashesInRange range ↔ ∃ node, replica.Has node ∧
      Core.hash node = nodeHash ∧ range.includes node.topologicalRank = true := by
  rw [InMemoryStore.getNodeHashesInRange, AssocMap.filter_values, List.mem_map]
  constructor
  · rintro ⟨stored, hmem, rfl⟩
    obtain ⟨key, hget, htest⟩ := AssocMap.mem_valuesWhere.mp hmem
    rw [Bool.and_eq_true] at htest
    have hnode : replica.store.getNode key = some stored.node := by
      rw [InMemoryStore.getNode, hget]
      rfl
    have hkey := replica.keyed key stored.node hnode
    refine ⟨stored.node, ⟨?_, ?_⟩, rfl, htest.2⟩
    · rw [Holds, hkey]
      exact hnode
    · rw [hkey, InMemoryStore.isVerified, hget]
      exact htest.1
  · rintro ⟨node, ⟨hnode, hverified⟩, rfl, hrange⟩
    obtain ⟨stored, hget, rfl⟩ := Option.map_eq_some_iff.mp hnode
    refine ⟨stored, AssocMap.mem_valuesWhere.mpr ⟨_, hget, ?_⟩, rfl⟩
    rw [InMemoryStore.isVerified, hget] at hverified
    exact Bool.and_eq_true_iff.mpr ⟨hverified, hrange⟩

theorem nodup_getNodeHashesInRange (replica : Replica conversationId) (range : SyncRange) :
    (replica.store.getNodeHashesInRange range).Nodup := by
  have hkeys : replica.store.getNodeHashesInRange range =
      (replica.store.nodes.entries.filter fun entry => entry.2.verified &&
        range.includes entry.2.node.topologicalRank).map Prod.fst := by
    rw [InMemoryStore.getNodeHashesInRange, AssocMap.filter_values, List.map_map]
    refine List.map_congr_left fun entry hmem => ?_
    have hget := AssocMap.get_eq_some_iff.mpr (List.mem_of_mem_filter hmem)
    refine replica.keyed entry.1 entry.2.node ?_
    rw [InMemoryStore.getNode, hget]
    rfl
  rw [hkeys]
  exact AssocMap.nodup_keysWhere _ _

omit [Primitives] in
theorem mem_sortHashes {hashes : List NodeHash} :
    nodeHash ∈ sortHashes hashes ↔ nodeHash ∈ hashes :=
  List.mem_insertionSort _

omit [Primitives] in
/-- Sorting makes lists of the same hashes equal. -/
theorem sortHashes_congr {first second : List NodeHash} (hfirst : first.Nodup)
    (hsecond : second.Nodup) (hmem : ∀ nodeHash, nodeHash ∈ first ↔ nodeHash ∈ second) :
    sortHashes first = sortHashes second := by
  have hperm : (sortHashes first).Perm (sortHashes second) :=
    (List.perm_insertionSort _ first).trans
      (((List.perm_ext_iff_of_nodup hfirst hsecond).mpr hmem).trans
        (List.perm_insertionSort _ second).symm)
  have htotal : Std.Total fun first second : NodeHash => first.bytes.toNat ≤ second.bytes.toNat :=
    ⟨fun first second => Nat.le_total _ _⟩
  have htrans : IsTrans NodeHash fun first second => first.bytes.toNat ≤ second.bytes.toNat :=
    ⟨fun first second third => Nat.le_trans⟩
  refine hperm.eq_of_pairwise (fun first second _ _ hle hge => ?_)
    (List.pairwise_insertionSort _ first) (List.pairwise_insertionSort _ second)
  obtain ⟨bytes⟩ := first
  obtain ⟨bytes'⟩ := second
  exact congrArg NodeHash.mk (BitVec.eq_of_toNat_eq (Nat.le_antisymm hle hge))

variable [ShardDigest]

/-- The checksum of a range on one side. -/
def checksum (replica : Replica conversationId) (range : SyncRange) : ShardHash :=
  ShardDigest.digest (sortHashes (replica.store.getNodeHashesInRange range))

/-- The shards up to the one of the highest head. -/
def shards (replica : Replica conversationId) : List (SyncRange × ShardHash) :=
  ((List.range (maxHeadRank replica.overlay conversationId / shardSize + 1)).map
    (· * shardSize)).map fun start =>
      let range : SyncRange := ⟨start, start + shardSize - 1⟩
      (range, replica.checksum range)

omit [ShardDigest] [Primitives] in
theorem mapM_eq_some {α β : Type} {f : α → Option β} {g : α → β} {list : List α}
    (hf : ∀ element ∈ list, f element = some (g element)) : list.mapM f = some (list.map g) := by
  induction list with
  | nil => rfl
  | cons element rest ih =>
      rw [List.mapM_cons, hf element List.mem_cons_self,
        ih fun other hmem => hf other (List.mem_cons_of_mem _ hmem)]
      rfl

omit [ShardDigest] [Primitives] in
theorem isSome_of_mapM {α β : Type} {f : α → Option β} {list : List α} {results : List β}
    (hresults : list.mapM f = some results) {element : α} (hmem : element ∈ list) :
    (f element).isSome = true := by
  induction list generalizing results with
  | nil => exact absurd hmem List.not_mem_nil
  | cons first rest ih =>
      rw [List.mapM_cons] at hresults
      obtain ⟨result, hfirst, hrest⟩ := Option.bind_eq_some_iff.mp hresults
      obtain ⟨others, hothers, -⟩ := Option.bind_eq_some_iff.mp hrest
      rcases List.mem_cons.mp hmem with rfl | hmem
      · exact Option.isSome_of_eq_some hfirst
      · exact ih hothers hmem

theorem make_of_fits (hfits : maxHeadRank replica.overlay conversationId / shardSize * shardSize +
      shardSize ≤ u64Max) :
    makeSyncShardChecksums replica.overlay conversationId = some replica.shards := by
  refine mapM_eq_some fun start hmem => ?_
  obtain ⟨index, hindex, rfl⟩ := List.mem_map.mp hmem
  rw [List.mem_range] at hindex
  have hle : index * shardSize ≤
      maxHeadRank replica.overlay conversationId / shardSize * shardSize :=
    Nat.mul_le_mul_right _ (Nat.le_of_lt_succ hindex)
  have hstored : ∀ range, replica.overlay.getNodeHashesInRange range =
      replica.store.getNodeHashesInRange range := fun range => List.append_nil _
  rw [makeShard, addU64, if_pos (by omega)]
  simp only [hstored]
  rfl

theorem fits_of_make {shards : List (SyncRange × ShardHash)}
    (hmake : makeSyncShardChecksums replica.overlay conversationId = some shards) :
    maxHeadRank replica.overlay conversationId / shardSize * shardSize + shardSize ≤ u64Max := by
  by_contra hfits
  have hlast : maxHeadRank replica.overlay conversationId / shardSize * shardSize ∈
      (List.range (maxHeadRank replica.overlay conversationId / shardSize + 1)).map
        (· * shardSize) :=
    List.mem_map.mpr ⟨_, List.mem_range.mpr (Nat.lt_succ_self _), rfl⟩
  have hsome := isSome_of_mapM hmake hlast
  rw [makeShard, addU64, if_neg hfits] at hsome
  cases hsome

theorem mem_shards {shard : SyncRange × ShardHash} : shard ∈ replica.shards ↔
    ∃ index ≤ maxHeadRank replica.overlay conversationId / shardSize,
      shard.1 = ⟨index * shardSize, index * shardSize + shardSize - 1⟩ ∧
        shard.2 = replica.checksum shard.1 := by
  rw [shards, List.map_map, List.mem_map]
  constructor
  · rintro ⟨index, hindex, rfl⟩
    exact ⟨index, Nat.le_of_lt_succ (List.mem_range.mp hindex), rfl, rfl⟩
  · rintro ⟨index, hindex, hrange, hsum⟩
    refine ⟨index, List.mem_range.mpr (Nat.lt_succ_of_le hindex), ?_⟩
    refine Prod.ext hrange.symm ?_
    rw [hsum, hrange]
    rfl

omit [Primitives] [ShardDigest] in
theorem includes_iff {index : Nat} :
    SyncRange.includes ⟨index * shardSize, index * shardSize + shardSize - 1⟩ rank = true ↔
      rank / shardSize = index := by
  rw [SyncRange.includes, Bool.and_eq_true, decide_eq_true_iff, decide_eq_true_iff]
  simp only [shardSize]
  omega

variable (left) in
/-- The ranges that one side reports on the shards of the other. -/
theorem handle_eq (hfits : maxHeadRank right.overlay conversationId / shardSize * shardSize +
      shardSize ≤ u64Max) :
    ∃ report, handleSyncShardChecksums right.overlay conversationId left.shards = some report ∧
      ∀ range, range ∈ report ↔ (range, left.checksum range) ∈ left.shards ∧
        ((range, right.checksum range) ∈ right.shards →
          left.checksum range ≠ right.checksum range) := by
  have hlookup : ∀ range, (right.shards.find? fun shard => shard.1 = range) =
      if (range, right.checksum range) ∈ right.shards then some (range, right.checksum range)
      else none := by
    intro range
    cases hfind : right.shards.find? fun shard => shard.1 = range with
    | none =>
        rw [if_neg fun hmem => ?_]
        have hnot := List.find?_eq_none.mp hfind _ hmem
        simp at hnot
    | some shard =>
        have hmem := List.mem_of_find?_eq_some hfind
        have hrange : shard.1 = range := by simpa using List.find?_some hfind
        obtain ⟨-, -, -, hsum⟩ := mem_shards.mp hmem
        have hshard : shard = (range, right.checksum range) :=
          Prod.ext hrange (hsum.trans (congrArg right.checksum hrange))
        rw [← hshard, if_pos hmem]
  refine ⟨_, by rw [handleSyncShardChecksums, make_of_fits hfits]; rfl, fun range => ?_⟩
  rw [List.mem_map]
  constructor
  · rintro ⟨shard, hshard, rfl⟩
    obtain ⟨hmem, htest⟩ := List.mem_filter.mp hshard
    obtain ⟨-, -, -, hsum⟩ := mem_shards.mp hmem
    refine ⟨hsum ▸ hmem, fun hlocal => ?_⟩
    rw [hlookup, if_pos hlocal] at htest
    intro heq
    simp [hsum, heq] at htest
  · rintro ⟨hmem, hdiffers⟩
    refine ⟨_, List.mem_filter.mpr ⟨hmem, ?_⟩, rfl⟩
    rw [hlookup]
    split
    next shard hlocal =>
      split at hlocal
      next hin =>
        cases hlocal
        simpa using (hdiffers hin).symm
      next => cases hlocal
    next => rfl

/-! ## Differences -/

/-- A node that only the first side has is in a shard of it that the other reports. -/
theorem detects (hcollision : ∀ node other, left.Holds node → right.Holds other →
      Core.hash node = Core.hash other → node = other)
    (hdigest : ∀ range, left.checksum range = right.checksum range →
      sortHashes (left.store.getNodeHashesInRange range) =
        sortHashes (right.store.getNodeHashesInRange range)) (hcovered : left.Covered)
    (hreport : ∀ range, range ∈ report ↔ (range, left.checksum range) ∈ left.shards ∧
      ((range, right.checksum range) ∈ right.shards →
        left.checksum range ≠ right.checksum range)) (hhas : left.Has node)
    (hlacks : ¬ right.Has node) :
    ∃ range ∈ report, range.includes node.topologicalRank = true := by
  obtain ⟨range, hrange⟩ : ∃ range : SyncRange, range =
      ⟨node.topologicalRank / shardSize * shardSize,
        node.topologicalRank / shardSize * shardSize + shardSize - 1⟩ := ⟨_, rfl⟩
  have hincludes : range.includes node.topologicalRank = true := by
    rw [hrange]
    exact includes_iff.mpr rfl
  refine ⟨range, (hreport range).mpr ⟨?_, fun _ hsame => ?_⟩, hincludes⟩
  · exact mem_shards.mpr ⟨_, hcovered.ranks node hhas, hrange, rfl⟩
  · have hmem := mem_sortHashes.mpr (mem_getNodeHashesInRange.mpr ⟨node, hhas, rfl, hincludes⟩)
    rw [hdigest range hsame] at hmem
    obtain ⟨other, hother, hhash, -⟩ := mem_getNodeHashesInRange.mp (mem_sortHashes.mp hmem)
    rw [hcollision node other hhas.1 hother.1 hhash.symm] at hlacks
    exact hlacks hother

omit [ShardDigest] in
/-- The heads of a replica are nodes of it, with their ranks. -/
theorem holds_of_mem_heads (hmem : head ∈ replica.heads) :
    ∃ node, replica.Holds node ∧ Core.hash node = head ∧
      replica.overlay.getRank head = some node.topologicalRank := by
  obtain ⟨node, hnode⟩ := Option.isSome_iff_exists.mp (replica.headsStored head hmem)
  have hhash := replica.keyed head node hnode
  refine ⟨node, ?_, hhash, ?_⟩
  · rw [Holds, hhash]
    exact hnode
  · have hcached : replica.overlay.getNode head = replica.store.getNode head := rfl
    rw [Overlay.getRank, hcached, hnode]
    rfl

omit [Primitives] [ShardDigest] in
theorem le_foldl_max {ranks : List Nat} {start : Nat} (hle : rank ≤ start ∨ rank ∈ ranks) :
    rank ≤ ranks.foldl max start := by
  induction ranks generalizing start with
  | nil => exact hle.resolve_right List.not_mem_nil
  | cons first rest ih =>
      refine ih ?_
      rcases hle with hle | hmem
      · exact .inl (hle.trans (Nat.le_max_left _ _))
      · rcases List.mem_cons.mp hmem with rfl | hmem
        · exact .inl (Nat.le_max_right _ _)
        · exact .inr hmem

section

variable (hcollision : ∀ node other, left.Holds node → right.Holds other → Core.hash node =
  Core.hash other → node = other)
include hcollision

omit [ShardDigest] in
theorem maxHeadRank_le (hheads : ∀ head ∈ left.heads, head ∈ right.heads) :
    maxHeadRank left.overlay conversationId ≤ maxHeadRank right.overlay conversationId := by
  refine Core.foldl_max_le (Nat.zero_le _) fun rank hmem => ?_
  obtain ⟨head, hhead, hrank⟩ := List.mem_filterMap.mp hmem
  obtain ⟨node, hnode, hhash, hleft⟩ := holds_of_mem_heads hhead
  obtain ⟨other, hother, hhash', hright⟩ := holds_of_mem_heads (hheads head hhead)
  obtain rfl := hcollision node other hnode hother (hhash.trans hhash'.symm)
  rw [hrank, Option.some.injEq] at hleft
  rw [hleft]
  exact le_foldl_max (.inr (List.mem_filterMap.mpr ⟨head, hheads head hhead, hright⟩))

/-- Two replicas with the same nodes and heads have the same shards. -/
theorem shards_congr (hnodes : ∀ node, left.Has node ↔ right.Has node)
    (hheads : ∀ head, head ∈ left.heads ↔ head ∈ right.heads) :
    left.checksum = right.checksum ∧ left.shards = right.shards := by
  have hsums : left.checksum = right.checksum := by
    funext range
    have hmem : ∀ nodeHash, nodeHash ∈ left.store.getNodeHashesInRange range ↔
        nodeHash ∈ right.store.getNodeHashesInRange range := by
      intro nodeHash
      rw [mem_getNodeHashesInRange, mem_getNodeHashesInRange]
      simp only [hnodes]
    rw [checksum, checksum, sortHashes_congr (left.nodup_getNodeHashesInRange range)
      (right.nodup_getNodeHashesInRange range) hmem]
  have hrank : maxHeadRank left.overlay conversationId =
      maxHeadRank right.overlay conversationId :=
    Nat.le_antisymm (maxHeadRank_le hcollision fun head => (hheads head).mp)
      (maxHeadRank_le (fun node other hnode hother hhash =>
        (hcollision other node hother hnode hhash.symm).symm) fun head => (hheads head).mpr)
  refine ⟨hsums, ?_⟩
  rw [shards, shards, hsums, hrank]

end

theorem Reconciles.covered (hreconciles : left.Reconciles right) :
    left.Covered ∧ right.Covered := by
  obtain ⟨leftShards, rightShards, leftReport, rightReport, hleft, hright, -, -, hcoversL,
    hcoversR, -, -⟩ := hreconciles
  have hranks : ∀ {replica : Replica conversationId} {shards : List (SyncRange × ShardHash)},
      makeSyncShardChecksums replica.overlay conversationId = some shards →
      (∀ node, replica.Has node →
        ∃ shard ∈ shards, shard.1.includes node.topologicalRank = true) → replica.Covered := by
    intro replica shards hmake hcovers
    have hfits := fits_of_make hmake
    rw [make_of_fits hfits, Option.some.injEq] at hmake
    refine ⟨fun node hhas => ?_, hfits⟩
    obtain ⟨shard, hshard, hincludes⟩ := hcovers node hhas
    rw [← hmake] at hshard
    obtain ⟨index, hindex, hrange, -⟩ := mem_shards.mp hshard
    rw [hrange, includes_iff] at hincludes
    exact hincludes ▸ hindex
  exact ⟨hranks hleft hcoversL, hranks hright hcoversR⟩

theorem Covered.shard (hcovered : replica.Covered) (hhas : replica.Has node) :
    ∃ shard ∈ replica.shards, shard.1.includes node.topologicalRank = true :=
  ⟨(_, replica.checksum _), mem_shards.mpr ⟨_, hcovered.ranks node hhas, rfl, rfl⟩,
    includes_iff.mpr rfl⟩

/-- With the same nodes and heads there is nothing to report. -/
theorem report_eq_nil (hcollision : ∀ node other, left.Holds node → right.Holds other →
      Core.hash node = Core.hash other → node = other)
    (hnodes : ∀ node, left.Has node ↔ right.Has node)
    (hheads : ∀ head, head ∈ left.heads ↔ head ∈ right.heads)
    (hreport : ∀ range, range ∈ report ↔ (range, left.checksum range) ∈ left.shards ∧
      ((range, right.checksum range) ∈ right.shards →
        left.checksum range ≠ right.checksum range)) : report = [] := by
  obtain ⟨hsums, hshards⟩ := shards_congr hcollision hnodes hheads
  refine List.eq_nil_iff_forall_not_mem.mpr fun range hmem => ?_
  obtain ⟨hin, hdiffers⟩ := (hreport range).mp hmem
  rw [hsums, hshards] at hin
  exact hdiffers hin (congrFun hsums range)

end Replica

/-- Shard reconciliation of two replicas finds their differences and no others, and covers
all verified nodes, if and only if on each side no verified node ranks above the shard of the
highest head and the end of this shard is a `u64`. -/
theorem reconciles_iff [Primitives] [ShardDigest] {conversationId : ConversationId}
    (left right : Replica conversationId)
    (hcollision : ∀ node other, left.Holds node → right.Holds other →
      Core.hash node = Core.hash other → node = other)
    (hdigest : ∀ range, left.checksum range = right.checksum range →
      sortHashes (left.store.getNodeHashesInRange range) =
        sortHashes (right.store.getNodeHashesInRange range)) :
    left.Reconciles right ↔ left.Covered ∧ right.Covered := by
  refine ⟨Replica.Reconciles.covered, fun ⟨hleft, hright⟩ => ?_⟩
  have hcollision' : ∀ node other, right.Holds node → left.Holds other →
      Core.hash node = Core.hash other → node = other :=
    fun node other hnode hother hhash => (hcollision other node hother hnode hhash.symm).symm
  obtain ⟨rightReport, hrightReport, hrightMem⟩ :=
    Replica.handle_eq left hright.fits
  obtain ⟨leftReport, hleftReport, hleftMem⟩ := Replica.handle_eq right hleft.fits
  refine ⟨left.shards, right.shards, leftReport, rightReport, Replica.make_of_fits hleft.fits,
    Replica.make_of_fits hright.fits, hleftReport, hrightReport, fun _ => hleft.shard,
    fun _ => hright.shard, ?_, fun hnodes hheads => ⟨?_, ?_⟩⟩
  · rintro ⟨node, ⟨hhas, hlacks⟩ | ⟨hhas, hlacks⟩⟩
    · obtain ⟨range, hrange, hincludes⟩ :=
        Replica.detects hcollision hdigest hleft hrightMem hhas hlacks
      exact ⟨range, List.mem_append_right _ hrange, node, .inl ⟨hhas, hlacks⟩, hincludes⟩
    · obtain ⟨range, hrange, hincludes⟩ := Replica.detects hcollision'
        (fun range hsame => (hdigest range hsame.symm).symm) hright hleftMem hhas hlacks
      exact ⟨range, List.mem_append_left _ hrange, node, .inr ⟨hhas, hlacks⟩, hincludes⟩
  · exact Replica.report_eq_nil hcollision' (fun node => (hnodes node).symm)
      (fun head => (hheads head).symm) hleftMem
  · exact Replica.report_eq_nil hcollision hnodes hheads hrightMem

namespace Reference

open MerkleTox.Core.Reference (room genesis)

instance referenceDigest : ShardDigest where
  digest hashes := ⟨BitVec.ofNat 256 (MerkleTox.Core.Reference.digest
    (hashes.map fun nodeHash => nodeHash.bytes.toNat))⟩

/-- A text of the founder after some nodes. -/
def textAfter (parents : List NodeHash) (rank : Nat) (text : String) : MerkleNode :=
  { genesis with parents := parents, topologicalRank := rank, content := .text text }

/-- The keys of a sender whose earlier nodes have not arrived. -/
def orphan : MerkleNode :=
  { genesis with
    parents := [⟨0⟩]
    topologicalRank := 1200
    content := .senderKeyDistribution ⟨0⟩ [] ⟨0⟩ [] }

def greeted : MerkleNode := textAfter [hash genesis] 1 "hello"

def answered : MerkleNode := textAfter [hash greeted] 2 "hi"

/-- A side that has two texts, and a head of a higher rank that is not verified. -/
def ahead : Replica room where
  store := { (((InMemoryStore.new.putNode genesis true).putNode greeted true).putNode
      answered true).putNode orphan false with
    heads := AssocMap.empty.insert room [hash answered, hash orphan] }
  keyed _ _ hget :=
    ((((InMemoryStore.WellFormed.new.putNode genesis true).putNode greeted true).putNode
      answered true).putNode orphan false).keyed hget
  headsStored := by decide +kernel

/-- A side that has the first text only. -/
def behind : Replica room where
  store := { (InMemoryStore.new.putNode genesis true).putNode greeted true with
    heads := AssocMap.empty.insert room [hash greeted] }
  keyed _ _ hget :=
    ((InMemoryStore.WellFormed.new.putNode genesis true).putNode greeted true).keyed hget
  headsStored := by decide +kernel

theorem mem_of_holds {replica : Replica room} (hholds : replica.Holds node) :
    node ∈ replica.store.nodes.values.map StoredNode.node := by
  obtain ⟨stored, hget, rfl⟩ := Option.map_eq_some_iff.mp hholds
  exact List.mem_map_of_mem (List.mem_map_of_mem (AssocMap.get_eq_some_iff.mp hget))

/-- The side that is behind is told that the second text is missing. -/
theorem reconciles_iff_behind :
    (ahead.Reconciles behind ↔ ahead.Covered ∧ behind.Covered) ∧ ahead.Reconciles behind := by
  have hcollision : ∀ node other, ahead.Holds node → behind.Holds other →
      hash node = hash other → node = other := by
    have hnodes : ∀ node ∈ ahead.store.nodes.values.map StoredNode.node,
        ∀ other ∈ behind.store.nodes.values.map StoredNode.node,
          hash node = hash other → node = other := by decide +kernel
    exact fun node other hnode hother => hnodes node (mem_of_holds hnode) other (mem_of_holds hother)
  have hdigest : ∀ range, ahead.checksum range = behind.checksum range →
      sortHashes (ahead.store.getNodeHashesInRange range) =
        sortHashes (behind.store.getNodeHashesInRange range) := by
    intro range
    have hahead : ahead.store.nodes.values =
        [⟨genesis, true, 0⟩, ⟨greeted, true, 1⟩, ⟨answered, true, 2⟩, ⟨orphan, false, 10⟩] := rfl
    have hbehind : behind.store.nodes.values = [⟨genesis, true, 0⟩, ⟨greeted, true, 1⟩] := rfl
    have hgenesis : genesis.topologicalRank = 0 := rfl
    have hgreeted : greeted.topologicalRank = 1 := rfl
    have hanswered : answered.topologicalRank = 2 := rfl
    unfold Replica.checksum InMemoryStore.getNodeHashesInRange SyncRange.covers
    rw [hahead, hbehind]
    simp only [List.filter_cons, List.filter_nil, Bool.false_and, Bool.true_and, hgenesis, hgreeted,
      hanswered]
    -- The unverified head is in no checksum; the other ranks are in the range or not.
    cases range.includes 0 <;> cases range.includes 1 <;> cases range.includes 2 <;>
      decide +kernel
  have hcovered : ahead.Covered ∧ behind.Covered := by
    have hahead : ∀ node ∈ ahead.store.nodes.values.map StoredNode.node,
        node.topologicalRank / shardSize ≤ maxHeadRank ahead.overlay room / shardSize := by
      decide +kernel
    have hbehind : ∀ node ∈ behind.store.nodes.values.map StoredNode.node,
        node.topologicalRank / shardSize ≤ maxHeadRank behind.overlay room / shardSize := by
      decide +kernel
    exact ⟨⟨fun node hhas => hahead node (mem_of_holds hhas.1), by decide +kernel⟩,
      fun node hhas => hbehind node (mem_of_holds hhas.1), by decide +kernel⟩
  have hiff := reconciles_iff ahead behind hcollision hdigest
  exact ⟨hiff, hiff.mpr hcovered⟩

end Reference

/-! ## A long admin track -/

namespace LongTrack

open MerkleTox.Core.Reference (room genesis)

/-- Hashes that number the nodes of one track. -/
local instance trackPrimitives : Primitives :=
  { referencePrimitives with hash := fun node => ⟨BitVec.ofNat 256 node.topologicalRank⟩ }

/-- The genesis node and revocations, each the child of the one before. -/
def trackNode : Nat → MerkleNode
  | 0 => genesis
  | rank + 1 => { genesis with
      parents := [⟨BitVec.ofNat 256 rank⟩]
      sequenceNumber := BitVec.ofNat 64 (rank + 2)
      topologicalRank := rank + 1
      content := .control (.revokeDevice ⟨2⟩ "") }

def trackStore : Nat → InMemoryStore
  | 0 => InMemoryStore.new.putNode (trackNode 0) true
  | rank + 1 => (trackStore rank).putNode (trackNode (rank + 1)) true

theorem hash_trackNode (rank : Nat) : hash (trackNode rank) = ⟨BitVec.ofNat 256 rank⟩ := by
  cases rank <;> rfl

theorem wellFormed_trackStore (last : Nat) : (trackStore last).WellFormed := by
  induction last with
  | zero => exact InMemoryStore.WellFormed.new.putNode _ _
  | succ last ih => exact ih.putNode _ _

theorem heads_trackStore (last : Nat) : (trackStore last).heads = .empty := by
  induction last with
  | zero => rfl
  | succ last ih => exact ih

/-- One side, with the track up to a rank. -/
def trackSide (last : Nat) : Replica room where
  store := trackStore last
  keyed _ _ hget := (wellFormed_trackStore last).keyed hget
  headsStored head hmem := by
    rw [heads_trackStore] at hmem
    exact absurd hmem List.not_mem_nil

theorem ofNat_injective {other : Nat} (hrank : rank < 2 ^ 256) (hother : other < 2 ^ 256)
    (heq : (⟨BitVec.ofNat 256 rank⟩ : NodeHash) = ⟨BitVec.ofNat 256 other⟩) : rank = other := by
  have hnat := congrArg (fun nodeHash : NodeHash => nodeHash.bytes.toNat) heq
  simpa only [BitVec.toNat_ofNat, Nat.mod_eq_of_lt hrank, Nat.mod_eq_of_lt hother] using hnat

/-- Every stored node is one of the track, and verified. -/
theorem of_getNode (hget : (trackStore last).getNode nodeHash = some node) :
    ∃ rank ≤ last, node = trackNode rank := by
  induction last with
  | zero =>
      rw [trackStore, InMemoryStore.getNode_putNode] at hget
      split at hget
      · exact ⟨0, Nat.le_refl _, (Option.some.inj hget).symm⟩
      · cases hget
  | succ last ih =>
      rw [trackStore, InMemoryStore.getNode_putNode] at hget
      split at hget
      · exact ⟨last + 1, Nat.le_refl _, (Option.some.inj hget).symm⟩
      · obtain ⟨rank, hrank, hnode⟩ := ih hget
        exact ⟨rank, Nat.le_succ_of_le hrank, hnode⟩

theorem has_trackNode (hlast : last < 2 ^ 256) (hrank : rank ≤ last) :
    (trackSide last).Has (trackNode rank) := by
  have hside : (trackSide last).store = trackStore last := rfl
  rw [Replica.Has, Replica.Holds, hside, hash_trackNode]
  induction last with
  | zero =>
      obtain rfl := Nat.le_zero.mp hrank
      rw [trackStore, InMemoryStore.getNode_putNode, InMemoryStore.isVerified_putNode,
        hash_trackNode, if_pos rfl, if_pos rfl]
      exact ⟨rfl, rfl⟩
  | succ last ih =>
      rw [trackStore, InMemoryStore.getNode_putNode, InMemoryStore.isVerified_putNode,
        hash_trackNode]
      rcases Nat.lt_or_ge last rank with hlater | hearlier
      · obtain rfl : rank = last + 1 := by omega
        rw [if_pos rfl, if_pos rfl]
        exact ⟨rfl, rfl⟩
      · have hne : (⟨BitVec.ofNat 256 rank⟩ : NodeHash) ≠ ⟨BitVec.ofNat 256 (last + 1)⟩ :=
          fun heq => by
            have hsame := ofNat_injective (by omega) hlast heq
            omega
        rw [if_neg hne, if_neg hne]
        exact ih (by omega) hearlier rfl

theorem has_iff (hlast : last < 2 ^ 256) :
    (trackSide last).Has node ↔ ∃ rank ≤ last, node = trackNode rank := by
  constructor
  · rintro ⟨hget, -⟩
    exact of_getNode hget
  · rintro ⟨rank, hrank, rfl⟩
    exact has_trackNode hlast hrank

theorem rank_trackNode (rank : Nat) : (trackNode rank).topologicalRank = rank := by
  cases rank <;> rfl

theorem maxHeadRank_trackSide (last : Nat) : maxHeadRank (trackSide last).overlay room = 0 := by
  have hheads : (trackSide last).overlay.getHeads room = [] := by
    have hcached : (trackSide last).overlay.getHeads room =
        ((trackStore last).heads.get room).getD [] := rfl
    rw [hcached, heads_trackStore]
    rfl
  rw [maxHeadRank, hheads]
  rfl

/-- Tracks that reach the end of the first shard have the same checksum there. -/
theorem checksum_first (hlast : last < 2 ^ 256) (hreaches : 999 ≤ last) :
    (trackSide last).checksum ⟨0, 999⟩ = (trackSide 999).checksum ⟨0, 999⟩ := by
  have hbound : 999 < 2 ^ 256 := by norm_num
  have hmem : ∀ nodeHash, nodeHash ∈ (trackSide last).store.getNodeHashesInRange ⟨0, 999⟩ ↔
      nodeHash ∈ (trackSide 999).store.getNodeHashesInRange ⟨0, 999⟩ := by
    intro nodeHash
    simp only [Replica.mem_getNodeHashesInRange, has_iff hlast, has_iff hbound]
    constructor
    · rintro ⟨_, ⟨rank, -, rfl⟩, hhash, hrange⟩
      refine ⟨_, ⟨rank, ?_, rfl⟩, hhash, hrange⟩
      rw [rank_trackNode] at hrange
      simpa [SyncRange.includes] using hrange
    · rintro ⟨_, ⟨rank, hrank, rfl⟩, hhash, hrange⟩
      exact ⟨_, ⟨rank, hrank.trans hreaches, rfl⟩, hhash, hrange⟩
  rw [Replica.checksum, Replica.checksum, Replica.sortHashes_congr
    (Replica.nodup_getNodeHashesInRange _ _) (Replica.nodup_getNodeHashesInRange _ _) hmem]

/-- There is only the first shard, and such tracks agree on it. -/
theorem handle_first {first second : Nat} (hfirst : first < 2 ^ 256) (hsecond : second < 2 ^ 256)
    (hreaches : 999 ≤ first) (hreaches' : 999 ≤ second) :
    handleSyncShardChecksums (trackSide second).overlay room (trackSide first).shards =
      some [] := by
  have hfits : maxHeadRank (trackSide second).overlay room / shardSize * shardSize + shardSize ≤
      u64Max := by
    rw [maxHeadRank_trackSide]
    decide
  have hsums : (trackSide first).checksum ⟨0, 999⟩ = (trackSide second).checksum ⟨0, 999⟩ :=
    (checksum_first hfirst hreaches).trans (checksum_first hsecond hreaches').symm
  obtain ⟨report, hreport, hmem⟩ := Replica.handle_eq (trackSide first) hfits
  rw [hreport]
  refine congrArg some (List.eq_nil_iff_forall_not_mem.mpr fun range hrange => ?_)
  obtain ⟨hshard, hdiffers⟩ := (hmem range).mp hrange
  obtain ⟨index, hindex, rfl, -⟩ := Replica.mem_shards.mp hshard
  rw [maxHeadRank_trackSide] at hindex
  obtain rfl : index = 0 := Nat.le_zero.mp hindex
  refine hdiffers (Replica.mem_shards.mpr ⟨0, ?_, rfl, rfl⟩) hsums
  exact Nat.zero_le _

/-- With a thousand and one nodes on the admin track and no content, the shards leave out the
last one, and a peer that lacks it is not told. -/
theorem longTrack_not_reconciled :
    ¬ (trackSide 1000).Reconciles (trackSide 999) ∧
      Replica.OnlyOne (trackSide 1000) (trackSide 999) (trackNode 1000) ∧
      handleSyncShardChecksums (trackSide 999).overlay room (trackSide 1000).shards = some [] ∧
      handleSyncShardChecksums (trackSide 1000).overlay room (trackSide 999).shards = some [] := by
  have hlong : (1000 : Nat) < 2 ^ 256 := by norm_num
  have hshort : (999 : Nat) < 2 ^ 256 := by norm_num
  have hhas : (trackSide 1000).Has (trackNode 1000) := has_trackNode hlong (Nat.le_refl _)
  refine ⟨fun hreconciles => ?_, .inl ⟨hhas, fun hother => ?_⟩, ?_, ?_⟩
  · have hrank := hreconciles.covered.1.ranks _ hhas
    rw [maxHeadRank_trackSide, rank_trackNode] at hrank
    exact absurd hrank (by decide)
  · obtain ⟨rank, hrank, hnode⟩ := (has_iff hshort).mp hother
    have heq := congrArg MerkleNode.topologicalRank hnode
    rw [rank_trackNode, rank_trackNode] at heq
    omega
  · exact handle_first hlong hshort (by norm_num) (Nat.le_refl _)
  · exact handle_first hshort hlong (Nat.le_refl _) (by norm_num)

end LongTrack

end MerkleTox.Reconcile
